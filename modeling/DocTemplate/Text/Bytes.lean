namespace DocTemplate

def byteLength : List Char → Nat
  | [] => 0
  | c :: cs => c.utf8Size + byteLength cs

@[simp]
theorem byteLength_append (cs ds : List Char) :
    byteLength (cs ++ ds) = byteLength cs + byteLength ds := by
  induction cs with
  | nil => simp [byteLength]
  | cons c cs ih => simp [byteLength, ih, Nat.add_assoc]

def takeBytes? : List Char → Nat → Option (List Char)
  | _, 0 => some []
  | [], _ + 1 => none
  | c :: cs, n + 1 =>
    if n + 1 < c.utf8Size then none else (takeBytes? cs (n + 1 - c.utf8Size)).map (c :: ·)

def dropBytes? : List Char → Nat → Option (List Char)
  | cs, 0 => some cs
  | [], _ + 1 => none
  | c :: cs, n + 1 => if n + 1 < c.utf8Size then none else dropBytes? cs (n + 1 - c.utf8Size)

/-- The characters between two byte offsets. -/
def sliceBytes? (cs : List Char) (start stop : Nat) : Option (List Char) :=
  if stop < start then none else (dropBytes? cs start).bind (takeBytes? · (stop - start))

end DocTemplate
