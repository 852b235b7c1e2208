/-!
# MessagePipe.Bytes

Byte-list plumbing: runs of zeros, reading a slice out of a region and writing
one into it.  Payloads, caller buffers and the payload region of a ring are
all lists of bytes, so every later statement about storage is a statement
about `take` and `drop`.

* `length_patch` — writing inside a region keeps its length;
* `slice_patch_self` — what was written is read back;
* `slice_patch_before` / `slice_patch_after` — bytes outside are untouched.
-/

namespace MessagePipe

/-- Payloads, buffers and payload regions. -/
abbrev Bytes := List UInt8

namespace Bytes

/-- A run of `n` zero bytes. -/
def zeros (n : Nat) : Bytes := List.replicate n 0

/-- A text in its UTF-8 form. -/
def ofText (s : String) : Bytes := s.toUTF8.toList

/-- The text whose UTF-8 form this is, if there is one. -/
def toText? (bytes : Bytes) : Option String := String.fromUTF8? ⟨bytes.toArray⟩

/-- The `n` bytes of a region that start at `offset`. -/
def slice (region : Bytes) (offset n : Nat) : Bytes := (region.drop offset).take n

/-- The region with the bytes from `offset` on replaced by `bytes`. -/
def patch (region : Bytes) (offset : Nat) (bytes : Bytes) : Bytes :=
  region.take offset ++ bytes ++ region.drop (offset + bytes.length)

@[simp] theorem length_zeros (n : Nat) : (zeros n).length = n := by
  simp [zeros]

/-- Bytes followed by as many zeros as are missing. -/
theorem length_append_zeros {bytes : Bytes} {n : Nat} (h : bytes.length ≤ n) :
    (bytes ++ zeros (n - bytes.length)).length = n := by
  rw [List.length_append, length_zeros]; omega

/-- A slice that lies inside the region has the length asked for. -/
theorem length_slice {region : Bytes} {offset n : Nat} (h : offset + n ≤ region.length) :
    (region.slice offset n).length = n := by
  simp only [slice, List.length_take, List.length_drop]; omega

/-- Writing at the front of a region. -/
theorem patch_zero (region bytes : Bytes) :
    region.patch 0 bytes = bytes ++ region.drop bytes.length := by
  simp [patch]

/-- Writing inside a region keeps its length. -/
theorem length_patch {region bytes : Bytes} {offset : Nat}
    (h : offset + bytes.length ≤ region.length) :
    (region.patch offset bytes).length = region.length := by
  simp only [patch, List.length_append, List.length_take, List.length_drop]; omega

/-- What was written is read back. -/
theorem slice_patch_self {region bytes : Bytes} {offset : Nat} (h : offset ≤ region.length) :
    (region.patch offset bytes).slice offset bytes.length = bytes := by
  have ho : (region.take offset).length = offset := by simp [h]
  rw [slice, patch, List.append_assoc, List.drop_append, ho]
  simp

/-- Bytes before the written ones are untouched. -/
theorem slice_patch_before {region bytes : Bytes} {offset start n : Nat}
    (h : start + n ≤ offset) (ho : offset ≤ region.length) :
    (region.patch offset bytes).slice start n = region.slice start n := by
  have hl : (region.take offset).length = offset := by simp [ho]
  rw [slice, slice, patch, List.append_assoc, List.drop_append_of_le_length (by omega),
    List.take_append_of_le_length (by rw [List.length_drop]; omega), List.drop_take, List.take_take]
  congr 1; omega

/-- Bytes after the written ones are untouched. -/
theorem slice_patch_after {region bytes : Bytes} {offset start n : Nat}
    (h : offset + bytes.length ≤ start) (ho : offset ≤ region.length) :
    (region.patch offset bytes).slice start n = region.slice start n := by
  have hl : (region.take offset).length = offset := by simp [ho]
  have hp : (region.take offset ++ bytes).length = offset + bytes.length := by simp [ho]
  rw [slice, slice, patch, List.drop_append, hp, List.drop_of_length_le (by omega), List.nil_append,
    List.drop_drop]
  congr 2; omega

end Bytes

end MessagePipe
