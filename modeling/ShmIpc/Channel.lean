import ShmIpc.ByteMemory

/-!
# The shared-memory channel

Literal transcription of `torrent/system/ipc/channel.{h,cc}`. Every `uint32_t`
is a `UInt32` with wrapping arithmetic; a `header_type*` is its byte offset from
`m_addr`, which is what the source computes whenever it compares or subtracts
such pointers. A `throw` keeps the stores made before it, so each operation
returns its outcome together with the channel it leaves behind.
-/
namespace ShmIpcChannel

open ByteMemory

/-- `LT_SMP_CACHE_BYTES`, set by the build script. -/
def cacheLineSize : UInt32 := 64

/-- `sizeof(header_type)`: two packed 32-bit words, `size` and then `id`. -/
def headerSize : UInt32 := 8

def flagPolling : UInt32 := 0x1
def flagInterrupted : UInt32 := 0x2

/-- The offset of `m_addr` in `Channel`: the five words before it fill one aligned cache line. -/
def addrOffset : UInt32 := 64

inductive Errno where
  | EAGAIN | EWOULDBLOCK | EINTR | EPIPE | EIO
  | other : Nat → Errno
  deriving DecidableEq, Repr

structure Channel where
  mSize : UInt32
  mWriteThreshold : UInt32
  mReadOffset : UInt32
  mWriteOffset : UInt32
  mConsumerState : UInt32
  mAddr : Memory

/-- A `header_type*`, as an offset from `m_addr`. -/
abbrev HeaderPtr := UInt32

def alignSizeToCacheline (size : UInt32) : UInt32 :=
  (size + (cacheLineSize - 1)) &&& ~~~(cacheLineSize - 1)

/-- `std::min`: the first argument unless the second is smaller. -/
def stdMin (a b : UInt32) : UInt32 := if b < a then b else a

/-- `std::max`: the first argument unless it is smaller than the second. -/
def stdMax (a b : UInt32) : UInt32 := if a < b then b else a

/-! ## Headers -/

/-- `header->size` -/
def sizeAt (m : Memory) (header : HeaderPtr) : UInt32 := loadWord m header.toNat

/-- `header->id` -/
def idAt (m : Memory) (header : HeaderPtr) : UInt32 := loadWord m (header.toNat + 4)

/-- The `header->size` bytes at `header->data`. -/
def dataAt (m : Memory) (header : HeaderPtr) : List UInt8 :=
  slice m (header.toNat + 8) (sizeAt m header).toNat

/-- The comparison of sizes is made in `ptrdiff_t`, which is wider than either operand. -/
def verifyReadHeader (c : Channel) (header : HeaderPtr) : Bool :=
  if header ≠ c.mReadOffset then false
  else if ((sizeAt c.mAddr header).toNat : Int) >
      (c.mSize.toNat : Int) - header.toNat - headerSize.toNat then false
  else true

/-- One call of `write_to_header`: a header at `offset` and a copy of `size` bytes behind it. -/
structure HeaderWrite where
  id : UInt32
  offset : UInt32
  size : UInt32
  data : Nat → UInt8

/-- The three stores of the call, in program order. -/
def HeaderWrite.stores (h : HeaderWrite) : List Store :=
  [storeWord (h.offset.toNat + 4) h.id, storeWord h.offset.toNat h.size,
    ⟨h.offset.toNat + 8, h.size.toNat, h.data⟩]

def writeToHeader (id offset size : UInt32) (data : Nat → UInt8) : HeaderWrite × UInt32 :=
  (⟨id, offset, size, data⟩, alignSizeToCacheline (offset + headerSize + size))

/-! ## Set-up -/

/-- `Channel::initialize`; `self` is the address of the channel and `c` whatever the segment held
before. -/
def channelInitialize (self : Nat) (size : UInt32) (c : Channel) : Except String Unit × Channel :=
  if self % cacheLineSize.toNat ≠ 0 then
    (.error "Channel::initialize() this must be aligned to cache line size", c)
  else if (self + addrOffset.toNat) % cacheLineSize.toNat ≠ 0 then
    (.error "Channel::initialize() m_addr must be aligned to cache line size", c)
  else if size = 0 ∨ size % cacheLineSize ≠ 0 then
    (.error "Channel::initialize() size must be non-zero and a multiple of cache line size", c)
  else
    let mSize := size - addrOffset
    (.ok (), { c with
      mSize := mSize
      mWriteThreshold := alignSizeToCacheline (mSize / 8)
      mReadOffset := 0
      mWriteOffset := 0
      mConsumerState := 0 })

def setWriteThreshold (c : Channel) (threshold : UInt32) : Channel :=
  { c with mWriteThreshold := threshold }

/-! ## Free space -/

/-- `split_threshold`: the space at the end of the buffer from which on a write is to be split. -/
def splitThreshold : UInt32 := 4 * cacheLineSize

def availableWrite (c : Channel) : UInt32 :=
  let endOffset := c.mWriteOffset
  let startOffset := c.mReadOffset
  if endOffset < startOffset then startOffset - endOffset - cacheLineSize
  else
    let tailSpace := c.mSize - endOffset
    let headSpace := startOffset
    if tailSpace ≥ splitThreshold then
      let splitSpace := tailSpace + headSpace
      if splitSpace ≤ cacheLineSize then 0 else splitSpace - cacheLineSize
    else if headSpace ≤ cacheLineSize then tailSpace
    else stdMax tailSpace (headSpace - cacheLineSize)

def canWrite (c : Channel) (size : UInt32) : Bool :=
  decide (availableWrite c ≥ alignSizeToCacheline (headerSize + size) + cacheLineSize)

/-! ## Writing -/

def sizeWithPadding (offset : UInt32) : UInt32 :=
  if offset ≥ cacheLineSize then offset - cacheLineSize else 0

def dataSize (size : UInt32) : UInt32 :=
  if size ≥ cacheLineSize then size - headerSize else 0

/-- How a write ends once its stores to the data area are done. -/
inductive Outcome where
  | throws : String → Outcome
  | eagain : Outcome
  | publish (endOffset written : UInt32) : Outcome

/-- The second record and the checks in front of the store of `m_write_offset`. -/
def finishWrite (mSize startOffset id size : UInt32) (data : Nat → UInt8)
    (writes : List HeaderWrite) (endOffset firstSize secondSize : UInt32) :
    List HeaderWrite × Outcome :=
  let (writes, endOffset) :=
    if secondSize > 0 then
      let (second, next) := writeToHeader id endOffset secondSize
        (fun i => data (firstSize.toNat + i))
      (writes ++ [second], next)
    else (writes, endOffset)
  if endOffset % cacheLineSize ≠ 0 then
    (writes, .throws "Channel::write() end_offset not aligned to cache line size")
  else if endOffset > mSize then
    (writes, .throws "Channel::write() end_offset exceeds buffer size")
  else if firstSize + secondSize = 0 then
    (writes, .throws "Channel::write() wrote zero bytes")
  else if firstSize + secondSize > size then
    (writes, .throws "Channel::write() wrote more bytes than requested")
  else if firstSize = 0 ∧ endOffset ≥ startOffset then
    (writes, .throws "Channel::write() first_size is zero but end_offset >= start_offset")
  else (writes, .publish endOffset (firstSize + secondSize))

/-- The choice between the end of the buffer and the gap in front of the reader. -/
def placeWrite (mSize mWriteThreshold startOffset endOffset id size : UInt32)
    (data : Nat → UInt8) : List HeaderWrite × Outcome :=
  if endOffset ≥ startOffset then
    let firstSize := stdMin size (dataSize (mSize - endOffset))
    let secondSize := stdMin (size - firstSize) (dataSize (sizeWithPadding startOffset))
    if firstSize + secondSize < stdMin size mWriteThreshold then
      if startOffset = endOffset then
        ([], .throws "Channel::write() start_offset == end_offset but can't write")
      else ([], .eagain)
    else
      let (first, endOffset) := writeToHeader id endOffset firstSize data
      if secondSize > 0 then
        if endOffset ≠ mSize then
          ([first], .throws "Channel::write() end_offset not at end of buffer")
        else finishWrite mSize startOffset id size data [first] 0 firstSize secondSize
      else finishWrite mSize startOffset id size data [first] endOffset firstSize secondSize
  else
    let secondSize := stdMin size (dataSize (sizeWithPadding (startOffset - endOffset)))
    if secondSize < stdMin size mWriteThreshold then ([], .eagain)
    else finishWrite mSize startOffset id size data [] endOffset 0 secondSize

/-- Everything `write` does between its two loads and the store of `m_write_offset`. -/
def writeBody (mSize mWriteThreshold startOffset oldOffset id size : UInt32)
    (data : Nat → UInt8) : List HeaderWrite × Outcome :=
  if oldOffset = mSize then
    -- Resetting the offset of a full buffer would mark it as empty.
    if startOffset = 0 then ([], .eagain)
    else placeWrite mSize mWriteThreshold startOffset 0 id size data
  else if startOffset - oldOffset = cacheLineSize then ([], .eagain)
  else placeWrite mSize mWriteThreshold startOffset oldOffset id size data

/-- The `int` result of `write`, with the value it leaves in `errno`, if any. -/
abbrev WriteResult := Int × Option Errno

def Outcome.apply (c : Channel) : Outcome → Except String WriteResult × Channel
  | .throws msg => (.error msg, c)
  | .eagain => (.ok (-1, some .EAGAIN), c)
  | .publish endOffset written =>
    (.ok (written.toInt32.toInt, none), { c with mWriteOffset := endOffset })

/-- The out-parameter `wake_reader` is left out: it is only ever set to false and never read. -/
def write (c : Channel) (id size : UInt32) (data : Option (Nat → UInt8)) :
    Except String WriteResult × Channel :=
  if id = 0 then (.error "Channel::write() invalid id", c)
  else match data with
  | none => (.error "Channel::write() data is null", c)
  | some data =>
    if size = 0 then (.error "Channel::write() size is zero", c)
    else
      let (writes, outcome) := writeBody c.mSize c.mWriteThreshold c.mReadOffset
        c.mWriteOffset id size data
      outcome.apply { c with mAddr := applyAll c.mAddr (writes.flatMap HeaderWrite.stores) }

/-! ## Reading -/

/-- `~uint32_t{}`, the size of a padding header. -/
def paddingSize : UInt32 := 0xFFFFFFFF

/-- `read_header` after its two loads. -/
def readHeaderFrom (c : Channel) (startOffset endOffset : UInt32) :
    Except String (Option HeaderPtr) × Channel :=
  if startOffset = endOffset then (.ok none, c)
  else if sizeAt c.mAddr startOffset = paddingSize then
    if startOffset < endOffset then
      (.error "Channel::read_header() padding header but no wrap", c)
    else if 0 = endOffset then
      (.error "Channel::read_header() padding header but no data after wrap", c)
    else if sizeAt c.mAddr 0 = paddingSize then
      (.error "Channel::read_header() consecutive padding headers", c)
    else
      let c := { c with mReadOffset := 0 }
      if !verifyReadHeader c 0 then
        (.error "Channel::read_header() header size exceeds buffer size", c)
      else (.ok (some 0), c)
  else if !verifyReadHeader c startOffset then
    (.error "Channel::read_header() header size exceeds buffer size", c)
  else (.ok (some startOffset), c)

def readHeader (c : Channel) : Except String (Option HeaderPtr) × Channel :=
  readHeaderFrom c c.mReadOffset c.mWriteOffset

def consumeHeader (c : Channel) (header : HeaderPtr) : Except String Unit × Channel :=
  let newStartOffset := header + alignSizeToCacheline (headerSize + sizeAt c.mAddr header)
  if !verifyReadHeader c header then
    (.error "Channel::consume_header() header size exceeds buffer size", c)
  else if newStartOffset > c.mSize then
    (.error "Channel::consume_header() new_start_offset exceeds buffer size", c)
  else if newStartOffset = c.mSize then (.ok (), { c with mReadOffset := 0 })
  else (.ok (), { c with mReadOffset := newStartOffset })

end ShmIpcChannel
