import SimpleHttpServer.Basic
import SimpleHttpServer.Lib.Search
import SimpleHttpServer.Lib.Store

/-!
# `Buffer`: the vector, its two indices and the operations

`net/Buffer.h` and `net/Buffer.cpp` as written. A pointer into the vector is an index, so `peek()`
is `readerIndex` and `beginWrite()` is `writerIndex`. The bytes of the vector outside the readable
region are kept: they are what a read past `beginWrite()` sees.
-/

namespace SimpleHttpServer

open Lib.Store Lib.Search

/-- `class Buffer`. -/
structure Buffer where
  buffer : Bytes
  readerIndex : Nat
  writerIndex : Nat
  deriving DecidableEq, Repr

/-- What `readv` reports. -/
inductive ReadResult where
  | bytes (data : Bytes)
  | failed (e : Errno)
  deriving DecidableEq, Repr

namespace Buffer

/-- `Buffer::kCheapPrepend`. -/
def kCheapPrepend : Nat := 8

/-- `Buffer::kInitialSize`. -/
def kInitialSize : Nat := 1024

/-- `sizeof(extrabuf)` in `readFd`. -/
def kExtraBuf : Nat := 65536

/-- `Buffer(initalSize)`. -/
def new (initialSize : Nat) : Buffer :=
  { buffer := List.replicate (kCheapPrepend + initialSize) 0
    readerIndex := kCheapPrepend
    writerIndex := kCheapPrepend }

/-- `readableBytes()`. -/
def readableBytes (b : Buffer) : Nat := b.writerIndex - b.readerIndex

/-- `writableBytes()`. -/
def writableBytes (b : Buffer) : Nat := b.buffer.length - b.writerIndex

/-- `prependableBytes()`. -/
def prependableBytes (b : Buffer) : Nat := b.readerIndex

/-- `peek()`, as an index. -/
def peek (b : Buffer) : Nat := b.readerIndex

/-- `beginWrite()`, as an index. -/
def beginWrite (b : Buffer) : Nat := b.writerIndex

/-- The bytes `[peek(), beginWrite())`. -/
def readable (b : Buffer) : Bytes := slice b.buffer b.readerIndex b.writerIndex

/-- `Buffer::kCRLF`. -/
def kCRLF : Bytes := ascii "\r\n"

/-- `findCRLF()`: a pointer to the first CRLF in the readable region, or `NULL`. -/
def findCRLF (b : Buffer) : Option Nat := (search kCRLF b.readable).map (b.peek + ·)

/-- `retrieveAll()`. -/
def retrieveAll (b : Buffer) : Buffer :=
  { b with readerIndex := kCheapPrepend, writerIndex := kCheapPrepend }

/-- `retrieve(len)`; more than there is retrieves all. -/
def retrieve (b : Buffer) (len : Nat) : Buffer :=
  if len < b.readableBytes then
    { b with readerIndex := b.readerIndex + len }
  else
    b.retrieveAll

/-- `retrieveUntil(end)`. -/
def retrieveUntil (b : Buffer) (endp : Nat) : Buffer := b.retrieve (endp - b.peek)

/-- `retrieveAsString(len)`: the string and the buffer left. -/
def retrieveAsString (b : Buffer) (len : Nat) : Bytes × Buffer :=
  (slice b.buffer b.peek (b.peek + len), b.retrieve len)

/-- `retrieveAllAsString()`. -/
def retrieveAllAsString (b : Buffer) : Bytes × Buffer := b.retrieveAsString b.readableBytes

/-- `makeSpace(len)`: the vector grows, or the readable bytes move to the front. -/
def makeSpace (b : Buffer) (len : Nat) : Buffer :=
  if b.writableBytes + b.prependableBytes < len + kCheapPrepend then
    { b with buffer := resize b.buffer (b.writerIndex + len) 0 }
  else
    { buffer := overwrite b.buffer kCheapPrepend (slice b.buffer b.readerIndex b.writerIndex)
      readerIndex := kCheapPrepend
      writerIndex := kCheapPrepend + b.readableBytes }

/-- `ensureWritableBytes(len)`. -/
def ensureWritableBytes (b : Buffer) (len : Nat) : Buffer :=
  if b.writableBytes < len then b.makeSpace len else b

/-- `std::copy(data, data + len, beginWrite()); writerIndex_ += len`. -/
def copyIn (b : Buffer) (data : Bytes) : Buffer :=
  { b with
    buffer := overwrite b.buffer b.beginWrite data
    writerIndex := b.writerIndex + data.length }

/-- `append(const char*, size_t)`. -/
def append (b : Buffer) (data : Bytes) : Buffer :=
  (b.ensureWritableBytes data.length).copyIn data

/-- `append(std::string)`, whose length goes through `int`. A negative length makes `std::copy` run
over a range that ends before it starts: `none`. -/
def appendString (b : Buffer) (data : Bytes) : Option Buffer :=
  let len := toInt data.length
  if len < 0 then none
  else some ((b.ensureWritableBytes len.toNat).copyIn (data.take len.toNat))

/-- The bytes one `readv` call of `readFd` can deliver: `vec[0]`, and `vec[1]` unless the vector has
room for `sizeof(extrabuf)` bytes. -/
def iovecCapacity (b : Buffer) : Nat :=
  b.writableBytes + if b.writableBytes < kExtraBuf then kExtraBuf else 0

/-- `readFd`: the buffer and the value returned (`saveErrno` on failure). -/
def readFd (b : Buffer) : ReadResult → Buffer × Except Errno Nat
  | .failed e => (b, .error e)
  | .bytes data =>
    let writable := b.writableBytes
    let n := data.length
    -- `readv` has filled `vec[0]`, the writable region, before `vec[1]`, the stack buffer
    let stored := overwrite b.buffer b.writerIndex (data.take writable)
    let extrabuf := data.drop writable
    if n ≤ writable then
      ({ b with buffer := stored, writerIndex := b.writerIndex + n }, .ok n)
    else
      (({ b with buffer := stored, writerIndex := stored.length } : Buffer).append extrabuf, .ok n)

end Buffer

end SimpleHttpServer
