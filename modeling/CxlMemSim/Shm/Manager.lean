import CxlMemSim.Lib.ByteMemory

/-! The mapping of `SharedMemoryManager` is one byte array: the header, and then the cacheline data area. -/
namespace CxlMemSim
open ByteMemory

abbrev Segment := UInt64 → UInt8

def walk (p : UInt64) (i : Nat) : UInt64 := p + UInt64.ofNat i

def loadU64 (mem : Segment) (p : UInt64) : UInt64 := UInt64.ofNat (loadLE mem (walk p) 8)

def storeU64 (mem : Segment) (p v : UInt64) : Segment := storeLE mem (walk p) 8 v.toNat

def cachelineSize : Nat := 64

def headerSize : UInt64 := 56

def magicNumber : UInt64 := 0x43584C4D454D5348
def formatVersion : UInt64 := 1

@[irreducible] def numCachelines (mem : Segment) : UInt64 := loadU64 mem (-16)

@[irreducible] def baseAddr (mem : Segment) : UInt64 := loadU64 mem (-8)

/-- Everything `initialize_header` stores for a mapping of `shmSize` bytes, in the
source's order; a mapping that already carries the magic number is left alone. -/
def initializeHeader (shmSize base : UInt64) (mem : Segment) : Segment :=
  if loadU64 mem (-56) = magicNumber ∧ loadU64 mem (-48) = formatVersion then mem
  else
    let mem := storeU64 mem (-56) magicNumber
    let mem := storeU64 mem (-48) formatVersion
    let mem := storeU64 mem (-40) shmSize
    let mem := storeU64 mem (-32) headerSize
    let mem := storeU64 mem (-24) 0
    let mem := storeU64 mem (-8) base
    storeU64 mem (-16) ((shmSize - headerSize) / 64)

def addrToCacheline (addr : UInt64) : UInt64 := addr &&& ~~~63

def cachelineToIndex (mem : Segment) (cachelineAddr : UInt64) : UInt64 :=
  if baseAddr mem = 0 then cachelineAddr / 64 % numCachelines mem
  else (cachelineAddr - baseAddr mem) / 64

/-- The offset of a line's data from `data_area`, or `none` for the null pointer. -/
def getCachelineData (mem : Segment) (cachelineAddr : UInt64) : Option UInt64 :=
  if baseAddr mem = 0 then some (cachelineToIndex mem cachelineAddr * 64)
  else if cachelineAddr < baseAddr mem then none
  else
    let index := cachelineToIndex mem cachelineAddr
    if numCachelines mem ≤ index then none else some (index * 64)

def isValidAddress (mem : Segment) (addr : UInt64) : Bool :=
  baseAddr mem = 0 ||
    (decide (baseAddr mem ≤ addr) && decide (addr < baseAddr mem + numCachelines mem * 64))

def readLoop (mem : Segment) (addr : UInt64) (size : Nat) : Nat → Nat → List UInt8 → List UInt8
  | 0, _, buffer => buffer
  | fuel + 1, bytesRead, buffer =>
    if bytesRead < size then
      let currentAddr := walk addr bytesRead
      let cachelineAddr := addrToCacheline currentAddr
      let index := cachelineToIndex mem cachelineAddr
      let offset := currentAddr - cachelineAddr
      let bytesInCacheline := min (size - bytesRead) (64 - offset.toNat)
      readLoop mem addr size fuel (bytesRead + bytesInCacheline)
        (buffer ++ peek mem (walk (index * 64 + offset)) bytesInCacheline)
    else buffer

/-- `none` is the result `false`. Every iteration copies a byte or more, so `size` rounds are enough. -/
def readCacheline (mem : Segment) (addr : UInt64) (size : Nat) : Option (List UInt8) :=
  if size = 0 ∨ cachelineSize < size then none
  else if baseAddr mem = 0 then some (readLoop mem addr size size 0 [])
  else
    let cachelineAddr := addrToCacheline addr
    match getCachelineData mem cachelineAddr with
    | none => none
    | some data =>
      let offset := addr - cachelineAddr
      if cachelineSize < offset.toNat + size then none
      else some (peek mem (walk (data + offset)) size)

def writeLoop (addr : UInt64) (data : List UInt8) : Nat → Nat → Segment → Segment
  | 0, _, mem => mem
  | fuel + 1, bytesWritten, mem =>
    if bytesWritten < data.length then
      let currentAddr := walk addr bytesWritten
      let cachelineAddr := addrToCacheline currentAddr
      let index := cachelineToIndex mem cachelineAddr
      let offset := currentAddr - cachelineAddr
      let bytesInCacheline := min (data.length - bytesWritten) (64 - offset.toNat)
      writeLoop addr data fuel (bytesWritten + bytesInCacheline)
        (poke mem (walk (index * 64 + offset)) ((data.drop bytesWritten).take bytesInCacheline))
    else mem

/-- `msyncOk` is the outcome of the final `msync`; the bytes are copied before it is called. -/
def writeCacheline (mem : Segment) (addr : UInt64) (data : List UInt8) (msyncOk : Bool) : Segment × Bool :=
  if data.length = 0 ∨ cachelineSize < data.length then (mem, false)
  else if baseAddr mem = 0 then (writeLoop addr data data.length 0 mem, msyncOk)
  else
    let cachelineAddr := addrToCacheline addr
    match getCachelineData mem cachelineAddr with
    | none => (mem, false)
    | some line =>
      let offset := addr - cachelineAddr
      if cachelineSize < offset.toNat + data.length then (mem, false)
      else (poke mem (walk (line + offset)) data, msyncOk)

end CxlMemSim
