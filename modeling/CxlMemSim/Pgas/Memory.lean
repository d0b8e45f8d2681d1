import CxlMemSim.Lib.ByteMemory

/-! The server keeps each cacheline as a `PGASMemoryEntry`: 64 data bytes and a metadata record, 128 bytes in all. -/
namespace CxlMemSim.Pgas
open ByteMemory

abbrev Memory := Nat → UInt8

inductive MetaField where
  | cacheState
  | ownerId
  | sharersBitmap
  | accessCount
  | lastAccessTime
  | virtualAddr
  | physicalAddr
  | version
  | flags
  | reserved
  deriving DecidableEq, Repr

def MetaField.offset : MetaField → Nat
  | cacheState => 64
  | ownerId => 65
  | sharersBitmap => 66
  | accessCount => 68
  | lastAccessTime => 72
  | virtualAddr => 80
  | physicalAddr => 88
  | version => 96
  | flags => 100
  | reserved => 101

def MetaField.width : MetaField → Nat
  | cacheState => 1
  | ownerId => 1
  | sharersBitmap => 2
  | accessCount => 4
  | lastAccessTime => 8
  | virtualAddr => 8
  | physicalAddr => 8
  | version => 4
  | flags => 1
  | reserved => 23

def entryOf (addr : UInt64) : Nat := addr.toNat / 64 * 128

def dataPtr (addr : UInt64) : Nat := entryOf addr + addr.toNat % 64

def fieldAt (entry : Nat) (f : MetaField) (i : Nat) : Nat := entry + f.offset + i

def loadField (mem : Memory) (entry : Nat) (f : MetaField) : Nat := loadLE mem (fieldAt entry f) f.width

def storeField (mem : Memory) (entry : Nat) (f : MetaField) (v : Nat) : Memory :=
  storeLE mem (fieldAt entry f) f.width v

def bumpField (mem : Memory) (entry : Nat) (f : MetaField) : Memory :=
  storeField mem entry f (loadField mem entry f + 1)

def copySize (size : UInt64) : Nat := min size.toNat 64

def readEntry (mem : Memory) (addr timestamp : UInt64) : Memory :=
  let mem := bumpField mem (entryOf addr) .accessCount
  storeField mem (entryOf addr) .lastAccessTime timestamp.toNat

def writeEntry (mem : Memory) (addr timestamp : UInt64) (bytes : List UInt8) : Memory :=
  let mem := poke mem (fun i => dataPtr addr + i) bytes
  let mem := bumpField mem (entryOf addr) .accessCount
  let mem := storeField mem (entryOf addr) .lastAccessTime timestamp.toNat
  let mem := storeField mem (entryOf addr) .cacheState 3
  bumpField mem (entryOf addr) .version

def wordAt (mem : Memory) (addr : UInt64) : UInt64 := UInt64.ofNat (loadLE mem (fun i => dataPtr addr + i) 8)

def storeWord (mem : Memory) (addr v : UInt64) : Memory :=
  storeLE mem (fun i => dataPtr addr + i) 8 v.toNat

def faaEntry (mem : Memory) (addr value : UInt64) : Memory :=
  let mem := storeWord mem addr (wordAt mem addr + value)
  let mem := bumpField mem (entryOf addr) .accessCount
  let mem := storeField mem (entryOf addr) .cacheState 3
  bumpField mem (entryOf addr) .version

def casEntry (mem : Memory) (addr expected value : UInt64) : Memory :=
  let mem := if wordAt mem addr = expected then storeWord mem addr value else mem
  let mem := bumpField mem (entryOf addr) .accessCount
  bumpField mem (entryOf addr) .version

end CxlMemSim.Pgas
