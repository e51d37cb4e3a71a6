/-
# The file container

`B_MMAP` (`Memory/b_mmap.cpp`) keeps its bytes in a file that is mapped into memory
(`FileMap`, `Memory/filemap.cpp`), and reads them through a `B_MEM` (`Memory/b_mem.cpp`) over
the mapping.

* `Mem.memcpy64`, `Mem.memmove64` — the block copies of `Helpers/mem.cpp`;
* `FileMap` — the file, its mapping being the whole of it;
* `BMmap` — the container: the file and the size of the `B_MEM` over it.

Creating, resizing and mapping a file succeed here.  An access outside of the mapping has no
result (`none`).  `reMapMemoryContainer` refreshes the `B_MEM` with the size that the `B_MEM`
had before, so a container over a new file stays empty to its readers.
-/
import Mantids.BChunksRead

namespace Mantids

/-! ## Copies in blocks -/

namespace Mem

/-- The memory with some bytes written over it from a position on. -/
def overwrite (mem : List UInt8) (pos : ℕ) (data : List UInt8) : List UInt8 :=
  mem.take pos ++ data ++ mem.drop (pos + data.length)

/-- `64 * KB_MULT`. -/
def blockSize : ℕ := 64 * 1024

/-- The loop of `memcpy64`, which counts every block twice. -/
def memcpy64Loop (source : List UInt8) : ℕ → List UInt8 → ℕ → ℕ → Option (List UInt8)
  | _, destination, _, 0 => some destination
  | 0, _, _, _ + 1 => none
  | fuel + 1, destination, currentOffset, numBytes =>
    let blockSizeToCopy := min numBytes blockSize
    if currentOffset + blockSizeToCopy ≤ source.length ∧
        currentOffset + blockSizeToCopy ≤ destination.length then
      memcpy64Loop source fuel
        (overwrite destination currentOffset ((source.drop currentOffset).take blockSizeToCopy))
        (currentOffset + blockSizeToCopy + blockSizeToCopy)
        (subSizeT (subSizeT numBytes blockSizeToCopy) blockSizeToCopy)
    else none

/-- `memcpy64` to the start of a stretch of memory.  Every block moves the offset on, so the
length of the source bounds the number of blocks. -/
def memcpy64 (destination source : List UInt8) (numBytes : ℕ) : Option (List UInt8) :=
  memcpy64Loop source (source.length + 1) destination 0 numBytes

/-- `memmove` of a block within a stretch of memory. -/
def memmove (mem : List UInt8) (dest src count : ℕ) : Option (List UInt8) :=
  if dest + count ≤ mem.length ∧ src + count ≤ mem.length then
    some (overwrite mem dest ((mem.drop src).take count))
  else none

/-- The loop of `memmove64` from the front; the size of the blocks does not change. -/
def memmoveUp (dest src currentBlock : ℕ) : ℕ → List UInt8 → ℕ → ℕ → Option (List UInt8)
  | _, mem, _, 0 => some mem
  | 0, _, _, _ + 1 => none
  | fuel + 1, mem, currentOffset, numBytes =>
    match memmove mem (dest + currentOffset) (src + currentOffset) currentBlock with
    | none => none
    | some mem =>
      memmoveUp dest src currentBlock fuel mem (currentOffset + currentBlock)
        (subSizeT numBytes currentBlock)

/-- The start of a block, from where it ends; a pointer below the first address wraps around. -/
def blockBefore (base numBytes currentBlock : ℕ) : ℕ :=
  subSizeT ((base + numBytes) % 2 ^ 64) currentBlock

/-- The loop of `memmove64` from the back. -/
def memmoveDown (dest src currentBlock : ℕ) : ℕ → List UInt8 → ℕ → Option (List UInt8)
  | _, mem, 0 => some mem
  | 0, _, _ + 1 => none
  | fuel + 1, mem, numBytes =>
    (memmove mem (blockBefore dest numBytes currentBlock) (blockBefore src numBytes currentBlock)
      currentBlock).bind
      fun mem => memmoveDown dest src currentBlock fuel mem (subSizeT numBytes currentBlock)

/-- `memmove64` within a stretch of memory. -/
def memmove64 (mem : List UInt8) (dest src numBytes : ℕ) : Option (List UInt8) :=
  let currentBlock := min numBytes blockSize
  if src < dest then memmoveDown dest src currentBlock (mem.length + 1) mem numBytes
  else if dest < src then memmoveUp dest src currentBlock (mem.length + 1) mem 0 numBytes
  else some mem

end Mem

/-! ## The file -/

/-- `FileMap`, with a file that is open for writing: its bytes are the mapping. -/
structure FileMap where
  contents : List UInt8 := []
deriving DecidableEq

namespace FileMap

def getFileOpenSize (f : FileMap) : ℕ := f.contents.length

/-- `mmapTruncate`: a file that grows is filled up with zeros. -/
def mmapTruncate (f : FileMap) (nSize : ℕ) : FileMap :=
  { contents := f.contents.take nSize ++ List.replicate (nSize - f.contents.length) 0 }

def mmapDisplace (f : FileMap) (offsetBytes : ℕ) : Option FileMap :=
  match Mem.memmove64 f.contents 0 offsetBytes (f.getFileOpenSize - offsetBytes) with
  | none => none
  | some contents =>
    some ({ contents := contents : FileMap }.mmapTruncate (f.getFileOpenSize - offsetBytes))

def mmapAppend (f : FileMap) (buf : List UInt8) : FileMap × ℕ :=
  if buf = [] then (f, 0)
  else
    let curOpenSize := f.getFileOpenSize
    let f := f.mmapTruncate (curOpenSize + buf.length)
    ({ contents := Mem.overwrite f.contents curOpenSize buf }, buf.length)

/-- `mmapPrepend`: the old bytes are moved to the front, not to the back. -/
def mmapPrepend (f : FileMap) (buf : List UInt8) : Option (FileMap × ℕ) :=
  if buf = [] then some (f, 0)
  else
    let curOpenSize := f.getFileOpenSize
    let f := f.mmapTruncate (curOpenSize + buf.length)
    match Mem.memmove64 f.contents 0 buf.length curOpenSize with
    | none => none
    | some contents =>
      match Mem.memcpy64 contents buf buf.length with
      | none => none
      | some contents => some ({ contents := contents }, buf.length)

end FileMap

/-! ## The checks of `B_Base` -/

namespace BBase

/-- `B_Base::append`, over the function that stores the data. -/
def append {α : Type*} (size maxSize : ℕ) (buf : List UInt8) (refused stored : α) : α :=
  if checkUIntOverflowSum buf.length size then refused
  else if maxSize < buf.length + size then refused
  else if buf = [] then refused
  else stored

/-- `B_Base::prepend`, which has a third answer for no data. -/
def prepend {α : Type*} (size maxSize : ℕ) (buf : List UInt8) (refused nothing stored : α) : α :=
  if checkUIntOverflowSum buf.length size then refused
  else if maxSize < buf.length + size then refused
  else if buf = [] then nothing
  else stored

/-- `B_Base::copyOut`, over the function that copies. -/
def copyOut (size : ℕ) (copyToBuffer2 : ℕ → ℕ → Option (List UInt8)) (bytes offset : ℕ) :
    Option (List UInt8) :=
  if bytes = 2 ^ 64 - 1 ∧ size < offset then none
  else
    let bytes := if bytes = 2 ^ 64 - 1 then size - offset else bytes
    if checkUIntOverflowSum offset bytes then none
    else if bytes = 0 then some []
    else if size < offset + bytes then none
    else copyToBuffer2 bytes offset

/-- The loop of `toString`: blocks of at most 8192 bytes, until one cannot be copied. -/
def toStringLoop (copyOut : ℕ → ℕ → Option (List UInt8)) : ℕ → List UInt8 → ℕ → ℕ → List UInt8
  | 0, r, _, _ => r
  | fuel + 1, r, bytes, offset =>
    if bytes = 0 then r
    else
      let copyBytes := min bytes 8192
      match copyOut copyBytes offset with
      | some outmem =>
        toStringLoop copyOut fuel (r ++ outmem) (bytes - copyBytes) (offset + copyBytes)
      | none => r

/-- `B_Base::toString`. -/
def toString (size : ℕ) (copyOut : ℕ → ℕ → Option (List UInt8)) (bytes offset : ℕ) :
    Option (List UInt8) :=
  if bytes = 2 ^ 64 - 1 ∧ size < offset then none
  else
    let bytes := if bytes = 2 ^ 64 - 1 then size - offset else bytes
    if checkUIntOverflowSum offset bytes then none
    else if bytes = 0 then some []
    else if size < offset + bytes then none
    else some (toStringLoop copyOut (bytes + 1) [] bytes offset)

end BBase

/-! ## The container -/

/-- `B_MMAP` over a file that it created; `mem` is a `B_MEM` from the start of the mapping. -/
structure BMmap where
  fileReference : FileMap := {}
  /-- The size of `mem`. -/
  memSize : ℕ := 0
deriving DecidableEq

namespace BMmap

/-- What `mem` shows of the mapping. -/
def mem (m : BMmap) : List UInt8 := m.fileReference.contents.take m.memSize

def size (m : BMmap) : ℕ := m.memSize

/-- `reMapMemoryContainer`: `mem.reference` is given `size()`, that is the old size of `mem`,
as 32 bits. -/
def reMapMemoryContainer (m : BMmap) (fileReference : FileMap) : BMmap :=
  { fileReference := fileReference, memSize := m.size % 2 ^ 32 }

/-- `B_MMAP::append`. -/
def append (m : BMmap) (buf : List UInt8) : BMmap × Option ℕ :=
  BBase.append m.size (2 ^ 64 - 1) buf (m, none)
    (m.reMapMemoryContainer (m.fileReference.mmapAppend buf).1,
      some (m.fileReference.mmapAppend buf).2)

/-- `B_MMAP::prepend`. -/
def prepend (m : BMmap) (buf : List UInt8) : Option (BMmap × Option ℕ) :=
  BBase.prepend m.size (2 ^ 64 - 1) buf (some (m, none)) (some (m, some 0))
    ((m.fileReference.mmapPrepend buf).map
      (fun r => (m.reMapMemoryContainer r.1, some r.2)))

/-- `B_MMAP::displace`. -/
def displace (m : BMmap) (bytes : ℕ) : Option (BMmap × Option ℕ) :=
  let bytesToDisplace := min bytes m.size
  if m.fileReference.getFileOpenSize < bytesToDisplace then some (m, none)
  else
    (m.fileReference.mmapDisplace bytesToDisplace).map
      (fun f => (m.reMapMemoryContainer f, some bytesToDisplace))

/-- The result of `B_MMAP::truncate`: a count, or the exception at the end of
`truncate2`. -/
def truncate (m : BMmap) (bytes : ℕ) : BMmap × Option (Option ℕ) :=
  if m.size ≤ bytes then (m, some none)
  else (m.reMapMemoryContainer (m.fileReference.mmapTruncate bytes), none)

/-- `B_MEM::findChar`; `none` if it throws. -/
def findChar (m : BMmap) (c : UInt8) (offset searchSpace : ℕ) (caseSensitive : Bool) :
    Option (Option ℕ) :=
  let caseSensitive := caseSensitive && isalpha c
  if m.size = 0 then some none
  else if checkUIntOverflowSum offset searchSpace then none
  else if m.size < offset + searchSpace then none
  else
    let searchSpace := if searchSpace = 0 then m.size - offset else searchSpace
    let stretch := (m.mem.drop offset).take searchSpace
    -- the two modes are the other way round than in `B_Chunks`
    some ((BChunks.charPos stretch c (!caseSensitive)).map (offset + ·))

/-- `B_Base::compare`, which returns before it compares. -/
def compare (buf : List UInt8) (offset : ℕ) : Bool :=
  !checkUIntOverflowSum offset buf.length

/-- `B_MEM::copyToBuffer2`. -/
def copyToBuffer2 (m : BMmap) (bytes offset : ℕ) : Option (List UInt8) :=
  if checkUIntOverflowSum offset bytes then none
  else if bytes = 0 then some []
  else if m.size < offset + bytes then none
  else some ((m.mem.drop offset).take bytes)

/-- `B_MMAP::copyOut`, through the checks of `mem.copyOut`. -/
def copyOut (m : BMmap) (bytes offset : ℕ) : Option (List UInt8) :=
  BBase.copyOut m.size (BBase.copyOut m.size m.copyToBuffer2) bytes offset

end BMmap

end Mantids
