/-!
# The sizes of blocks

The elements of an array stand in a block of slots. A block that is full is left for a larger one: of
twice the size while it is small, and of a quarter more and a fixed rest when it is large. Space is
handed out in portions of certain sizes, and a block gets all the slots that its portion has room for.

A portion below the size of a page has one of the listed sizes. Beyond a certain size some space in it
is set aside for a header. A larger portion consists of whole pages.
-/

namespace ScriptLang.Growth

/-- The space that a slot takes. -/
def slotSpace : Nat := 16

/-- The space of a page. -/
def pageSpace : Nat := 8192

/-- The space of a header. -/
def headerSpace : Nat := 8

/-- The most space that is handed out without a header. -/
def plainLimit : Nat := 512

/-- The sizes of portions, in ascending order. -/
def portions : List Nat := [
  8, 16, 24, 32, 48, 64, 80, 96, 112, 128, 144, 160, 176, 192, 208, 224, 240, 256, 288, 320, 352, 384,
  416, 448, 480, 512, 576, 640, 704, 768, 896, 1024, 1152, 1280, 1408, 1536, 1792, 2048, 2304, 2688,
  3072, 3200, 3456, 4096, 4864, 5376, 6144, 6528, 6784, 6912, 8192, 9472, 9728, 10240, 10880, 12288,
  13568, 14336, 16384, 18432, 19072, 20480, 21760, 24576, 27264, 28672, 32768]

/-- The space that is handed out to one who asks for `space`. -/
def granted (space : Nat) : Nat :=
  let header := if space > plainLimit then headerSpace else 0
  match portions.find? (space + header ≤ ·) with
  | some portion => portion - header
  | none => (space + pageSpace - 1) / pageSpace * pageSpace

/-- The number of slots in a block that was asked for with `n` of them. -/
def fitted (n : Nat) : Nat := granted (n * slotSpace) / slotSpace

/-- The size up to which blocks are doubled. -/
def doubledBelow : Nat := 256

/-- The number of slots to ask for when a block of `n` slots is full. -/
def wanted (n : Nat) : Nat :=
  if n = 0 then 1
  else if n < doubledBelow then 2 * n
  else n + (n + 3 * doubledBelow) / 4

/-- The size of the block that takes the place of a full one of `n` slots. -/
def next (n : Nat) : Nat := fitted (wanted n)

/-- The first size from `size` on that holds `n` slots; the first argument bounds the number of
steps. -/
def reach : Nat → Nat → Nat → Nat
  | 0, size, _ => size
  | fuel + 1, size, n => if n ≤ size then size else reach fuel (next size) n

/-- The size of the block of an array to which `n` elements were added one by one. -/
def sizeFor (n : Nat) : Nat := reach n 0 n

end ScriptLang.Growth
