import Cbor.Json.Ordered
import Cbor.Json.Parser

/-!
# What is read

A value that is read from a text has its members in order, and its containers are nested no deeper
than the machine holds them (`fits_of_parse?`).

1. The tokens that are values contain no other value (`Token.flat_of_ofChars?`).
2. Members come in order whatever order they are read in (`fits_ofMembers`).
3. Each token keeps the parts of incomplete containers in order (`Parser.State.Fits.step`).
-/

namespace Cbor.Json

/-- Says that a value is in order and that containers are not nested too deep where it lies inside
`level` others. -/
structure Fits (level : Nat) (value : Json) : Prop where
  ordered : value.Ordered
  depth_le : value.depth + level ≤ maxNesting

/-! ## Tokens -/

namespace Token

/-- Says that a token, if it is a value, contains no other. -/
def Flat : Token → Prop
  | .value v => v.Ordered ∧ v.depth = 0
  | _ => True

theorem flat_of_ofWord? {word : List Char} {v : Json} (h : ofWord? word = some v) :
    (Token.value v).Flat := by
  unfold ofWord? at h
  split at h
  · cases h
    exact ⟨.null, rfl⟩
  · split at h
    · cases h
      exact ⟨.bool true, rfl⟩
    · split at h
      · cases h
        exact ⟨.bool false, rfl⟩
      · obtain ⟨n, -, rfl⟩ := Option.map_eq_some_iff.1 h
        exact ⟨.number n, rfl⟩

theorem flat_of_first {done : List Token} {c : Char} {l : Lexer} (hdone : ∀ t ∈ done, t.Flat)
    (h : first done c = some l) : ∀ t ∈ l.done, t.Flat := by
  unfold first at h
  split at h
  case h_12 =>
    split at h
    · cases h
      exact hdone
    · cases h
  all_goals
    cases h
    first
    | exact hdone
    | exact List.forall_mem_cons.2 ⟨trivial, hdone⟩

theorem flat_of_step {l l' : Lexer} {c : Char} (hdone : ∀ t ∈ l.done, t.Flat)
    (h : l.step c = some l') : ∀ t ∈ l'.done, t.Flat := by
  unfold Lexer.step at h
  split at h
  case h_1 => exact flat_of_first hdone h
  case h_2 =>
    split at h
    · cases h
      exact hdone
    · obtain ⟨v, hv, h⟩ := Option.bind_eq_some_iff.1 h
      exact flat_of_first (List.forall_mem_cons.2 ⟨flat_of_ofWord? hv, hdone⟩) h
  case h_3 =>
    split at h
    · cases h
      exact List.forall_mem_cons.2 ⟨⟨.string _, rfl⟩, hdone⟩
    · split at h
      · cases h
        exact hdone
      · split at h
        · cases h
        · cases h
          exact hdone
  case h_4 =>
    split at h
    · cases h
      exact hdone
    · obtain ⟨_, -, h⟩ := Option.bind_eq_some_iff.1 h
      cases h
      exact hdone
  case h_5 =>
    obtain ⟨_, -, h⟩ := Option.bind_eq_some_iff.1 h
    split at h
    · obtain ⟨_, -, h⟩ := Option.bind_eq_some_iff.1 h
      cases h
      exact hdone
    · cases h
      exact hdone
  case h_6 =>
    split at h
    · cases h
      exact hdone
    · cases h
  case h_7 =>
    split at h
    · cases h
      exact hdone
    · cases h

theorem flat_of_result? {l : Lexer} {tokens : List Token} (hdone : ∀ t ∈ l.done, t.Flat)
    (h : l.result? = some tokens) : ∀ t ∈ tokens, t.Flat := by
  unfold Lexer.result? at h
  split at h
  · cases h
    exact fun t ht => hdone t (List.mem_reverse.1 ht)
  · obtain ⟨v, hv, h⟩ := Option.bind_eq_some_iff.1 h
    cases h
    intro t ht
    exact List.forall_mem_cons.2 ⟨flat_of_ofWord? hv, hdone⟩ t (List.mem_reverse.1 ht)
  · cases h

theorem flat_of_foldlM {cs : List Char} {l l' : Lexer} (hdone : ∀ t ∈ l.done, t.Flat)
    (h : cs.foldlM Lexer.step l = some l') : ∀ t ∈ l'.done, t.Flat := by
  induction cs generalizing l with
  | nil =>
    cases h
    exact hdone
  | cons c cs ih =>
    obtain ⟨next, hnext, hlast⟩ := Option.bind_eq_some_iff.1 h
    exact ih (flat_of_step hdone hnext) hlast

/-- The tokens of a text contain no value that contains another. -/
theorem flat_of_ofChars? {cs : List Char} {tokens : List Token} (h : ofChars? cs = some tokens) :
    ∀ t ∈ tokens, t.Flat := by
  obtain ⟨l, hrun, hresult⟩ := Option.bind_eq_some_iff.1 h
  have hstart : ∀ t ∈ (⟨[], .between⟩ : Lexer).done, t.Flat := List.forall_mem_nil _
  exact flat_of_result? (flat_of_foldlM hstart hrun) hresult

end Token

/-! ## Containers -/

theorem depthItems_le_iff {items : List Json} {bound : Nat} :
    depthItems items ≤ bound ↔ ∀ item ∈ items, item.depth ≤ bound := by
  induction items with
  | nil => simp [depthItems]
  | cons item items ih => rw [depthItems, Nat.max_le, ih, List.forall_mem_cons]

theorem depthMembers_le_iff {members : List (String × Json)} {bound : Nat} :
    depthMembers members ≤ bound ↔ ∀ member ∈ members, member.2.depth ≤ bound := by
  induction members with
  | nil => simp [depthMembers]
  | cons member members ih => rw [depthMembers, Nat.max_le, ih, List.forall_mem_cons]

theorem fits_array {level : Nat} {items : List Json} (hlevel : level < maxNesting)
    (h : ∀ item ∈ items, Fits (level + 1) item) : Fits level (.array items) := by
  refine ⟨.array fun item hitem => (h item hitem).ordered, ?_⟩
  have hdepth : depthItems items ≤ maxNesting - (level + 1) :=
    depthItems_le_iff.2 fun item hitem => Nat.le_sub_of_add_le (h item hitem).depth_le
  rw [depth]
  omega

theorem fits_object {level : Nat} {members : List (String × Json)} (hlevel : level < maxNesting)
    (hascending : (members.map Prod.fst).Pairwise (· < ·))
    (h : ∀ member ∈ members, Fits (level + 1) member.2) : Fits level (.object members) := by
  refine ⟨.object hascending fun member hmember => (h member hmember).ordered, ?_⟩
  have hdepth : depthMembers members ≤ maxNesting - (level + 1) :=
    depthMembers_le_iff.2 fun member hmember => Nat.le_sub_of_add_le (h member hmember).depth_le
  rw [depth]
  omega

/-- Of members in order, those that are kept are in order and have different keys. -/
theorem exists_of_eraseRepsBy (first : String × Json) (members before : List (String × Json))
    (h : (first :: members).Pairwise fun a b => a.1 ≤ b.1) :
    ∃ kept, List.eraseRepsBy.loop (fun a b => a.1 == b.1) first members before
        = before.reverse ++ kept
      ∧ kept ⊆ first :: members ∧ (kept.map Prod.fst).Pairwise (· < ·)
      ∧ ∀ member ∈ kept, first.1 ≤ member.1 := by
  induction members generalizing first before with
  | nil =>
    refine ⟨[first], ?_, fun _ h => h, List.pairwise_singleton _ _, ?_⟩
    · rw [List.eraseRepsBy.loop, List.reverse_cons]
    · exact List.forall_mem_singleton.2 (String.le_refl _)
  | cons second members ih =>
    obtain ⟨hfirst, hrest⟩ := List.pairwise_cons.1 h
    rw [List.eraseRepsBy.loop]
    split
    -- The first member of a run of one key stands for the run.
    · rename_i heq
      obtain ⟨kept, hloop, hsubset, hkept, hle⟩ := ih first before
        (List.pairwise_cons.2 ⟨fun m hm => hfirst m (List.mem_cons_of_mem _ hm),
          (List.pairwise_cons.1 hrest).2⟩)
      refine ⟨kept, hloop, fun m hm => ?_, hkept, hle⟩
      rcases List.mem_cons.1 (hsubset hm) with rfl | hm
      · exact List.mem_cons_self
      · exact List.mem_cons_of_mem _ (List.mem_cons_of_mem _ hm)
    · rename_i hne
      obtain ⟨kept, hloop, hsubset, hkept, hle⟩ := ih second (first :: before) hrest
      have hsecond := hfirst second List.mem_cons_self
      have hlt (m : String × Json) (hm : m ∈ kept) : first.1 < m.1 := by
        refine String.not_le.1 fun hge => ?_
        exact absurd (String.le_antisymm hsecond (String.le_trans (hle m hm) hge))
          (beq_eq_false_iff_ne.1 hne)
      refine ⟨first :: kept, ?_, ?_, ?_, ?_⟩
      · rw [hloop, List.reverse_cons, List.append_assoc]
        rfl
      · exact List.cons_subset_cons _ hsubset
      · rw [List.map_cons, List.pairwise_cons]
        exact ⟨List.forall_mem_map.2 hlt, hkept⟩
      · exact List.forall_mem_cons.2 ⟨String.le_refl _, fun m hm =>
          String.le_trans hsecond (hle m hm)⟩

theorem pairwise_mergeSort_keys (members : List (String × Json)) :
    (members.mergeSort fun a b => decide (a.1 ≤ b.1)).Pairwise fun a b => a.1 ≤ b.1 := by
  refine (List.pairwise_mergeSort ?_ ?_ members).imp of_decide_eq_true
  · intro a b c hab hbc
    exact decide_eq_true (String.le_trans (of_decide_eq_true hab) (of_decide_eq_true hbc))
  · intro a b
    rw [Bool.or_eq_true, decide_eq_true_eq, decide_eq_true_eq]
    exact String.le_total a.1 b.1

/-- An object is made of some of its members, which have different keys in ascending order. -/
theorem exists_ofMembers_eq (members : List (String × Json)) :
    ∃ kept, ofMembers members = .object kept ∧ kept ⊆ members
      ∧ (kept.map Prod.fst).Pairwise (· < ·) := by
  have hsorted := pairwise_mergeSort_keys members
  have hmem : members.mergeSort (fun a b => decide (a.1 ≤ b.1)) ⊆ members :=
    fun _ h => List.mem_mergeSort.1 h
  unfold ofMembers
  generalize members.mergeSort (fun a b => decide (a.1 ≤ b.1)) = ascending at hsorted hmem
  cases ascending with
  | nil => exact ⟨[], rfl, List.nil_subset _, List.Pairwise.nil⟩
  | cons first rest =>
    obtain ⟨kept, hloop, hsubset, hkept, -⟩ := exists_of_eraseRepsBy first rest [] hsorted
    exact ⟨kept, congrArg Json.object hloop, List.Subset.trans hsubset hmem, hkept⟩

/-- An object is in order whatever order its members are read in. -/
theorem fits_ofMembers {level : Nat} {members : List (String × Json)} (hlevel : level < maxNesting)
    (h : ∀ member ∈ members, Fits (level + 1) member.2) : Fits level (ofMembers members) := by
  obtain ⟨kept, heq, hsubset, hascending⟩ := exists_ofMembers_eq members
  rw [heq]
  exact fits_object hlevel hascending fun member hmember => h member (hsubset hmember)

namespace Parser

/-! ## Incomplete containers -/

/-- Says that the parts of a container that lies inside `level` others fit. -/
def Frame.Fits (level : Nat) : Frame → Prop
  | .array before => ∀ item ∈ before, Json.Fits (level + 1) item
  | .object before _ => ∀ member ∈ before, Json.Fits (level + 1) member.2

/-- Says that containers, innermost first, are not too many and that the parts of each fit. -/
def Framed : List Frame → Prop
  | [] => True
  | frame :: around => around.length < maxNesting ∧ frame.Fits around.length ∧ Framed around

theorem Framed.length_le {around : List Frame} (h : Framed around) :
    around.length ≤ maxNesting := by
  cases around with
  | nil => exact Nat.zero_le _
  | cons frame around => exact h.1

/-- Says that the parts of a state fit. -/
def State.Fits : State → Prop
  | .value around => Framed around
  | .firstItem around => Framed (.array [] :: around)
  | .firstKey around => ∀ next, Framed (.object [] next :: around)
  | .key before around => ∀ next, Framed (.object before next :: around)
  | .colon before next around => Framed (.object before next :: around)
  | .complete v around => Json.Fits around.length v ∧ Framed around

theorem fits_of_begin? {around : List Frame} {token : Token} {s : State} (haround : Framed around)
    (htoken : token.Flat) (h : begin? around token = some s) : s.Fits := by
  unfold begin? at h
  split at h
  case h_1 v =>
    cases h
    obtain ⟨hordered, hdepth⟩ := htoken
    refine ⟨⟨hordered, ?_⟩, haround⟩
    rw [hdepth, Nat.zero_add]
    exact haround.length_le
  case h_2 =>
    split at h
    · rename_i hlevel
      cases h
      exact ⟨hlevel, nofun, haround⟩
    · cases h
  case h_3 =>
    split at h
    · rename_i hlevel
      cases h
      exact fun key => ⟨hlevel, nofun, haround⟩
    · cases h
  case h_4 => cases h

/-- One token keeps the parts of a state in order. -/
theorem State.Fits.step {s s' : State} {token : Token} (h : s.Fits) (htoken : token.Flat)
    (hstep : step? s token = some s') : s'.Fits := by
  unfold step? at hstep
  split at hstep
  case h_1 => exact fits_of_begin? h htoken hstep
  case h_2 =>
    cases hstep
    exact ⟨fits_array h.1 nofun, h.2.2⟩
  case h_3 => exact fits_of_begin? h htoken hstep
  case h_4 =>
    cases hstep
    obtain ⟨hlevel, -, haround⟩ := h ""
    exact ⟨fits_object hlevel List.Pairwise.nil nofun, haround⟩
  case h_5 key =>
    cases hstep
    exact h key
  case h_6 key =>
    cases hstep
    exact h key
  case h_7 =>
    cases hstep
    exact h
  case h_8 =>
    cases hstep
    obtain ⟨hv, hlevel, hbefore, haround⟩ := h
    exact ⟨hlevel, List.forall_mem_cons.2 ⟨hv, hbefore⟩, haround⟩
  case h_9 =>
    cases hstep
    obtain ⟨hv, hlevel, hbefore, haround⟩ := h
    refine ⟨fits_array hlevel fun item hitem => ?_, haround⟩
    exact List.forall_mem_cons.2 ⟨hv, hbefore⟩ item (List.mem_reverse.1 hitem)
  case h_10 =>
    cases hstep
    obtain ⟨hv, hlevel, hbefore, haround⟩ := h
    exact fun key => ⟨hlevel, List.forall_mem_cons.2 ⟨hv, hbefore⟩, haround⟩
  case h_11 =>
    cases hstep
    obtain ⟨hv, hlevel, hbefore, haround⟩ := h
    exact ⟨fits_ofMembers hlevel (List.forall_mem_cons.2 ⟨hv, hbefore⟩), haround⟩
  case h_12 => cases hstep

theorem State.Fits.run {tokens : List Token} {s s' : State} (h : s.Fits)
    (htokens : ∀ t ∈ tokens, t.Flat) (hrun : tokens.foldlM step? s = some s') : s'.Fits := by
  induction tokens generalizing s with
  | nil =>
    cases hrun
    exact h
  | cons token tokens ih =>
    obtain ⟨htoken, htokens⟩ := List.forall_mem_cons.1 htokens
    obtain ⟨next, hnext, hlast⟩ := Option.bind_eq_some_iff.1 hrun
    exact ih (h.step htoken hnext) htokens hlast

theorem fits_of_value? {tokens : List Token} {v : Json} (htokens : ∀ t ∈ tokens, t.Flat)
    (h : value? tokens = some v) : Json.Fits 0 v := by
  unfold value? at h
  split at h
  · rename_i hrun
    cases h
    have hstart : (State.value []).Fits := trivial
    exact (hstart.run htokens hrun).1
  · cases h

end Parser

/-- A value that is read from a text has its members in order, and is not nested deeper than the
reader holds containers. -/
theorem fits_of_parse? {bytes : Bytes} {value : Json} (h : parse? bytes = some value) :
    Fits 0 value := by
  obtain ⟨cs, -, h⟩ := Option.bind_eq_some_iff.1 h
  obtain ⟨tokens, htokens, h⟩ := Option.bind_eq_some_iff.1 h
  exact Parser.fits_of_value? (Token.flat_of_ofChars? htokens) h

end Cbor.Json
