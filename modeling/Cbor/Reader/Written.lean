import Cbor.Reader.Outcome

/-!
# Reading what is written

Heads are written as short as they can be. So the outcomes of calls on written bytes are those of
heads of the least width, whatever follows.
-/

namespace Cbor.Reader

/-- A written string is read as its content. -/
theorem outcome_string (major : MajorType) (result : Bytes → Result) {content : Bytes}
    (h : content.length < UInt64.size) (rest : Bytes) :
    Outcome (.string major result)
      (Head.encode major (UInt64.ofNat content.length) ++ content ++ rest)
      (.ok (result content)) (Head.size (UInt64.ofNat content.length) + content.length) := by
  have hholds := Width.holds_minimal? (UInt64.ofNat content.length)
  rw [UInt64.toNat_ofNat_of_lt' h] at hholds
  have houtcome := Outcome.string hholds major result rest
  rwa [Head.encodeIn_minimal? major h, Head.length_encode] at houtcome

/-- A written integer is read by a type that it fits, and is refused by another, but both pass over
it. -/
theorem outcome_integer (v : UInt64) (limit : Nat) (result : UInt64 → Result) (rest : Bytes) :
    Outcome (.integer limit result) (Head.encode .unsigned v ++ rest)
      (if v.toNat < limit then .ok (result v) else .error (.tooLarge v)) (Head.size v) := by
  have hholds := Width.holds_minimal? v
  rw [← Head.length_encode .unsigned v, Head.encode_eq_encodeIn]
  split
  · rename_i hlt
    exact .integer hholds hlt result rest
  · rename_i hle
    exact .tooLarge hholds (Nat.not_lt.1 hle) result rest

end Cbor.Reader
