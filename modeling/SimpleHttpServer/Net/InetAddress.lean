import SimpleHttpServer.Decimal

/-!
# `InetAddress`

`net/InetAddress.h`: an IPv4 address and port as `sockaddr_in` holds them, both in network byte
order. `inet_ntop` prints the four bytes of the address.
-/

namespace SimpleHttpServer

/-- `ntohs`: the two bytes swapped. -/
def ntohs (x : UInt16) : UInt16 := x <<< 8 ||| x >>> 8

/-- `class InetAddress`: the bytes of `sin_addr`, and `sin_port`. -/
structure InetAddress where
  sinAddr : UInt8 × UInt8 × UInt8 × UInt8
  sinPort : UInt16
  deriving DecidableEq

namespace InetAddress

/-- `inet_ntop(AF_INET, ..)`. -/
def toIp (addr : InetAddress) : Bytes :=
  let (a, b, c, d) := addr.sinAddr
  decimal a.toNat ++ ascii "." ++ decimal b.toNat ++ ascii "." ++ decimal c.toNat ++ ascii "." ++
    decimal d.toNat

/-- `toPort()`. -/
def toPort (addr : InetAddress) : UInt16 := ntohs addr.sinPort

/-- `toIpPort()`. -/
def toIpPort (addr : InetAddress) : Bytes := addr.toIp ++ ascii ":" ++ decimal addr.toPort.toNat

theorem length_toIp_le (addr : InetAddress) : addr.toIp.length ≤ 15 := by
  have hbyte : ∀ b : UInt8, (decimal b.toNat).length ≤ 3 := fun b => by
    have hlt := b.toNat_lt
    exact length_decimal_le (by omega) (by omega)
  obtain ⟨⟨a, b, c, d⟩, port⟩ := addr
  have ha := hbyte a
  have hb := hbyte b
  have hc := hbyte c
  have hd := hbyte d
  have hdot : (ascii ".").length = 1 := by decide
  simp only [toIp, List.length_append, hdot]
  omega

/-- The text fits the 64 bytes it is printed to. -/
theorem length_toIpPort_le (addr : InetAddress) : addr.toIpPort.length ≤ 21 := by
  have hip := addr.length_toIp_le
  have hport : (decimal addr.toPort.toNat).length ≤ 5 := by
    have hlt := addr.toPort.toNat_lt
    exact length_decimal_le (by omega) (by omega)
  have hcolon : (ascii ":").length = 1 := by decide
  simp only [toIpPort, List.length_append, hcolon]
  omega

example : toIpPort ⟨(127, 0, 0, 1), 0x401F⟩ = ascii "127.0.0.1:8000" := by decide

end InetAddress

end SimpleHttpServer
