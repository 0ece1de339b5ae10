import Speedway.Lib.LittleEndian
import Speedway.Mtd.Crc32

/-!
# The nodes of a jffs2 file system

A node starts with a magic number, its type, its length and a checksum of these; it carries
a second checksum of its other fields and a third one of its name or data. Nodes follow
each other at multiples of four bytes. `encode` gives the bytes that the flash tool writes;
`scan` is how a block is read: node by node, up to the first one that is not intact.
-/

namespace Speedway.Mtd.Jffs2

open Speedway.Lib

/-- `JFFS2_MAGIC_BITMASK`. -/
def magicBitmask : Nat := 0x1985

/-- `JFFS2_NODETYPE_DIRENT`. -/
def nodetypeDirent : Nat := 0xe001

/-- `JFFS2_NODETYPE_INODE`. -/
def nodetypeInode : Nat := 0xe002

/-- `JFFS2_NODETYPE_CLEANMARKER`. -/
def nodetypeCleanmarker : Nat := 0x2003

/-- `PAD`. -/
def align4 (x : Nat) : Nat := (x + 3) / 4 * 4

/-- The fields of `struct jffs2_raw_dirent` other than sums and lengths. -/
structure Dirent where
  pino : UInt32
  version : UInt32
  ino : UInt32
  mctime : UInt32
  type : UInt8
  name : List UInt8
  deriving DecidableEq

/-- The fields of `struct jffs2_raw_inode` other than sums and lengths; nothing is
compressed, so that `csize` and `dsize` are the length of the data. -/
structure Inode where
  ino : UInt32
  version : UInt32
  mode : UInt32
  uid : UInt16
  gid : UInt16
  isize : UInt32
  atime : UInt32
  mtime : UInt32
  ctime : UInt32
  offset : UInt32
  compr : UInt8
  usercompr : UInt8
  flags : UInt16
  data : List UInt8
  deriving DecidableEq

inductive Node where
  | cleanmarker
  | dirent (d : Dirent)
  | inode (i : Inode)
  deriving DecidableEq

/-- The checksum of the fields before it in `struct jffs2_unknown_node`. -/
def hdrCrc (nodetype totlen : Nat) : Nat :=
  crc32 0 (record [(2, magicBitmask), (2, nodetype), (4, totlen)])

/-- `struct jffs2_unknown_node`. -/
def header (nodetype totlen : Nat) : List (Nat × Nat) :=
  [(2, magicBitmask), (2, nodetype), (4, totlen), (4, hdrCrc nodetype totlen)]

namespace Dirent

/-- The fields up to `node_crc`. -/
def body (d : Dirent) : List (Nat × Nat) :=
  header nodetypeDirent (40 + d.name.length) ++
    [(4, d.pino.toNat), (4, d.version.toNat), (4, d.ino.toNat), (4, d.mctime.toNat),
      (1, d.name.length), (1, d.type.toNat), (2, 0)]

/-- The fields of the structure. -/
def fields (d : Dirent) : List (Nat × Nat) :=
  d.body ++ [(4, crc32 0 (record d.body)), (4, crc32 0 d.name)]

def encode (d : Dirent) : List UInt8 := record d.fields ++ d.name

end Dirent

namespace Inode

/-- The fields up to `data_crc`. -/
def body (i : Inode) : List (Nat × Nat) :=
  header nodetypeInode (68 + i.data.length) ++
    [(4, i.ino.toNat), (4, i.version.toNat), (4, i.mode.toNat), (2, i.uid.toNat),
      (2, i.gid.toNat), (4, i.isize.toNat), (4, i.atime.toNat), (4, i.mtime.toNat),
      (4, i.ctime.toNat), (4, i.offset.toNat), (4, i.data.length), (4, i.data.length),
      (1, i.compr.toNat), (1, i.usercompr.toNat), (2, i.flags.toNat)]

/-- The fields of the structure. -/
def fields (i : Inode) : List (Nat × Nat) :=
  i.body ++ [(4, crc32 0 i.data), (4, crc32 0 (record i.body))]

def encode (i : Inode) : List UInt8 := record i.fields ++ i.data

end Inode

/-- `CLEANMARKER` on a little-endian machine. -/
def cleanmarker : List UInt8 :=
  [0x85, 0x19, 0x03, 0x20, 0x0c, 0x00, 0x00, 0x00, 0xb1, 0xb0, 0x1e, 0xe4]

/-- `JFFS2_EOF`. -/
def eof : List UInt8 := [0xde, 0xad, 0xc0, 0xde]

def Node.encode : Node → List UInt8
  | .cleanmarker => Jffs2.cleanmarker
  | .dirent d => d.encode
  | .inode i => i.encode

/-- The node and the bytes that fill it up to a multiple of four. -/
def Node.padded (n : Node) : List UInt8 :=
  n.encode ++ List.replicate (align4 n.encode.length - n.encode.length) 0xff

section Reading

/-- The widths of the fields of `struct jffs2_unknown_node`. -/
def headerWidths : List Nat := [2, 2, 4, 4]

/-- The widths of the fields of `struct jffs2_raw_dirent`. -/
def direntWidths : List Nat := [2, 2, 4, 4, 4, 4, 4, 4, 1, 1, 2, 4, 4]

/-- The widths of the fields of `struct jffs2_raw_inode`. -/
def inodeWidths : List Nat := [2, 2, 4, 4, 4, 4, 4, 2, 2, 4, 4, 4, 4, 4, 4, 4, 1, 1, 2, 4, 4]

/-- Reads a directory entry. -/
def readDirent (bs : List UInt8) : Option Dirent :=
  match values direntWidths bs with
  | [_, _, totlen, _, pino, version, ino, mctime, nsize, type, _, nodeCrc, nameCrc] =>
      let name := (bs.drop 40).take nsize
      if nodeCrc ≠ crc32 0 (bs.take 32) ∨ nameCrc ≠ crc32 0 name ∨ totlen ≠ 40 + nsize ∨
          name.length ≠ nsize then none
      else some {
        pino := .ofNat pino
        version := .ofNat version
        ino := .ofNat ino
        mctime := .ofNat mctime
        type := .ofNat type
        name := name }
  | _ => none

/-- Reads an inode with its data, when the data is not compressed. -/
def readInode (bs : List UInt8) : Option Inode :=
  match values inodeWidths bs with
  | [_, _, totlen, _, ino, version, mode, uid, gid, isize, atime, mtime, ctime, offset, csize,
      dsize, compr, usercompr, flags, dataCrc, nodeCrc] =>
      let data := (bs.drop 68).take csize
      if nodeCrc ≠ crc32 0 (bs.take 60) ∨ dataCrc ≠ crc32 0 data ∨ totlen ≠ 68 + csize ∨
          dsize ≠ csize ∨ data.length ≠ csize then none
      else some {
        ino := .ofNat ino
        version := .ofNat version
        mode := .ofNat mode
        uid := .ofNat uid
        gid := .ofNat gid
        isize := .ofNat isize
        atime := .ofNat atime
        mtime := .ofNat mtime
        ctime := .ofNat ctime
        offset := .ofNat offset
        compr := .ofNat compr
        usercompr := .ofNat usercompr
        flags := .ofNat flags
        data := data }
  | _ => none

/-- Reads the node at the start of some bytes, with its length. -/
def readNode (bs : List UInt8) : Option (Nat × Node) :=
  match values headerWidths bs with
  | [magic, nodetype, totlen, hdrCrc] =>
      if bs.length < 12 ∨ magic ≠ magicBitmask ∨ hdrCrc ≠ crc32 0 (bs.take 8) then none
      else if nodetype = nodetypeCleanmarker then some (totlen, .cleanmarker)
      else if nodetype = nodetypeDirent then (readDirent bs).map fun d => (totlen, .dirent d)
      else if nodetype = nodetypeInode then (readInode bs).map fun i => (totlen, .inode i)
      else none
  | _ => none

/-- Reads a block, of at most `fuel` nodes. -/
def scanFrom : Nat → List UInt8 → List Node
  | 0, _ => []
  | fuel + 1, bs =>
      match readNode bs with
      | none => []
      | some (totlen, n) => n :: scanFrom fuel (bs.drop (align4 totlen))

/-- Reads a block; a node has at least twelve bytes. -/
def scan (bs : List UInt8) : List Node := scanFrom bs.length bs

end Reading

section Lengths

theorem Dirent.length_fields (d : Dirent) : (record d.fields).length = 40 := by
  simp [length_record, Dirent.fields, Dirent.body, header]

theorem Dirent.length_encode (d : Dirent) : d.encode.length = 40 + d.name.length := by
  rw [Dirent.encode, List.length_append, d.length_fields]

theorem Inode.length_fields (i : Inode) : (record i.fields).length = 68 := by
  simp [length_record, Inode.fields, Inode.body, header]

theorem Inode.length_encode (i : Inode) : i.encode.length = 68 + i.data.length := by
  rw [Inode.encode, List.length_append, i.length_fields]

theorem le_align4 (x : Nat) : x ≤ align4 x ∧ align4 x < x + 4 ∧ align4 x % 4 = 0 := by
  unfold align4
  omega

theorem length_padded (n : Node) : n.padded.length = align4 n.encode.length := by
  have := le_align4 n.encode.length
  rw [Node.padded, List.length_append, List.length_replicate]
  omega

theorem Node.le_length_encode (n : Node) : 12 ≤ n.encode.length := by
  cases n with
  | cleanmarker => exact le_refl 12
  | dirent d =>
      rw [Node.encode, Dirent.length_encode]
      omega
  | inode i =>
      rw [Node.encode, Inode.length_encode]
      omega

end Lengths

section RoundTrip

/-- The node can be written: its length fits its fields. -/
def Node.Fits : Node → Prop
  | .cleanmarker => True
  | .dirent d => d.name.length < 2 ^ 8
  | .inode i => 68 + i.data.length < 2 ^ 32

/-- Nodes one after the other. -/
def encodeAll (nodes : List Node) : List UInt8 := nodes.flatMap Node.padded

theorem length_le_encodeAll (nodes : List Node) : nodes.length ≤ (encodeAll nodes).length := by
  induction nodes with
  | nil => exact le_refl 0
  | cons n nodes ih =>
      have hnode := n.le_length_encode
      have halign := (le_align4 n.encode.length).1
      rw [encodeAll, List.flatMap_cons, List.length_append, List.length_cons, length_padded]
      rw [encodeAll] at ih
      omega

end RoundTrip

end Speedway.Mtd.Jffs2
