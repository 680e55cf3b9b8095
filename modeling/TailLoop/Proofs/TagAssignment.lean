import Mathlib.Data.List.Perm.Subperm
import Mathlib.Order.Bounds.Defs
import TailLoop.Proofs.CompileAgreement
import TailLoop.Proofs.ContractRules

/-!
# The tags of constructors

A tag table is built exactly if the declarations leave no doubt about it.  Then
every declared constructor has a tag of its own.  It is the given one; a
constructor without one gets the least number that is not given to any
constructor, wherever that is declared, and was not taken by an earlier
constructor without a tag.
-/

namespace TailLoop.TagTable

/-- Among more consecutive numbers than there are given tags, one is no given
tag. -/
theorem exists_free (given : List Int) (start : Nat) :
    ∃ offset ∈ List.range (given.length + 1),
      ((start + offset : Nat) : Int) ∉ given := by
  by_contra allGiven
  push Not at allGiven
  let candidates := (List.range (given.length + 1)).map fun offset =>
    ((start + offset : Nat) : Int)
  have distinct : candidates.Nodup := by
    refine List.Nodup.map ?_ List.nodup_range
    intro offset other same
    dsimp only at same
    omega
  have within : candidates ⊆ given := by
    intro candidate member
    obtain ⟨offset, inRange, rfl⟩ := List.mem_map.mp member
    exact allGiven offset inRange
  have count := (List.subperm_of_subset distinct within).length_le
  rw [List.length_map, List.length_range] at count
  omega

/-- The search finds the least number from its start on that is no given tag. -/
theorem leastFree_isLeast (given : List Int) (start : Nat) :
    IsLeast {number : Nat | start ≤ number ∧ (number : Int) ∉ given}
      (leastFree given start) := by
  let free (offset : Nat) : Bool :=
    decide (((start + offset : Nat) : Int) ∉ given)
  have found : ((List.range (given.length + 1)).find? free).isSome = true := by
    obtain ⟨offset, inRange, isFree⟩ := exists_free given start
    exact List.find?_isSome.mpr ⟨offset, inRange, decide_eq_true isFree⟩
  obtain ⟨offset, first⟩ := Option.isSome_iff_exists.mp found
  have result : leastFree given start = start + offset := by
    rw [leastFree, List.find?_map]
    exact congrArg (fun result => (Option.map (start + ·) result).getD start)
      first
  obtain ⟨isFree, -, skipped⟩ := List.find?_range_eq_some.mp first
  rw [result]
  refine ⟨⟨Nat.le_add_right _ _, of_decide_eq_true isFree⟩, ?_⟩
  rintro number ⟨fromStart, unused⟩
  by_contra smaller
  have isGiven := skipped (number - start) (by omega)
  simp only [free, Nat.add_sub_cancel' fromStart, Bool.not_eq_true',
    decide_eq_false_iff_not, not_not] at isGiven
  exact unused isGiven

/-- The tag is given by the declaration, or free and not below the cursor. -/
theorem mem_assign {given : List Int} {next : Nat}
    {constructors : List Constructor} {name : Name} {tag : Int}
    (member : (name, tag) ∈ assign given next constructors) :
    tag ∈ constructors.filterMap Constructor.tag ∨ (next : Int) ≤ tag ∧
    tag ∉ given := by
  induction constructors generalizing next with
  | nil => cases member
  | cons c rest ih =>
      rw [assign] at member
      cases declared : c.tag with
      | some own =>
          simp only [declared] at member
          rw [List.filterMap_cons_some declared]
          rcases List.mem_cons.mp member with same | later
          · cases same
            exact .inl List.mem_cons_self
          · exact (ih later).imp_left (List.mem_cons_of_mem _)
      | none =>
          simp only [declared] at member
          rw [List.filterMap_cons_none declared]
          obtain ⟨⟨fromNext, free⟩, -⟩ := leastFree_isLeast given next
          rcases List.mem_cons.mp member with same | later
          · cases same
            exact .inr ⟨Int.ofNat_le.mpr fromNext, free⟩
          · refine (ih later).imp_right fun above => ⟨?_, above.2⟩
            have := above.1
            omega

/-- No tag is assigned twice. -/
theorem nodup_assign {given : List Int} {next : Nat}
    {constructors : List Constructor}
    (distinct : (constructors.filterMap Constructor.tag).Nodup)
    (known : constructors.filterMap Constructor.tag ⊆ given) :
    ((assign given next constructors).map Prod.snd).Nodup := by
  induction constructors generalizing next with
  | nil => exact List.nodup_nil
  | cons c rest ih =>
      rw [assign]
      cases declared : c.tag with
      | some own =>
          rw [List.filterMap_cons_some declared] at distinct known
          obtain ⟨once, distinct⟩ := List.nodup_cons.mp distinct
          refine List.nodup_cons.mpr ⟨?_, ih distinct fun _ later =>
            known (.tail _ later)⟩
          intro again
          obtain ⟨⟨name, tag⟩, later, rfl⟩ := List.mem_map.mp again
          rcases mem_assign later with givenLater | ⟨-, free⟩
          · exact once givenLater
          · exact free (known List.mem_cons_self)
      | none =>
          rw [List.filterMap_cons_none declared] at distinct known
          obtain ⟨⟨-, free⟩, -⟩ := leastFree_isLeast given next
          refine List.nodup_cons.mpr ⟨?_, ih distinct known⟩
          intro again
          obtain ⟨⟨name, tag⟩, later, same⟩ := List.mem_map.mp again
          dsimp only at same
          rcases mem_assign later with givenLater | ⟨above, -⟩
          · exact free (same ▸ known givenLater)
          · omega

theorem mem_assign_of_tag {given : List Int} {next : Nat}
    {constructors : List Constructor} {c : Constructor} {tag : Int}
    (member : c ∈ constructors) (declared : c.tag = some tag) :
    (c.name, tag) ∈ assign given next constructors := by
  induction constructors generalizing next with
  | nil => cases member
  | cons head rest ih =>
      rw [assign]
      rcases List.mem_cons.mp member with rfl | later
      · simp only [declared]
        exact List.mem_cons_self
      · split <;> exact List.mem_cons_of_mem _ (ih later)

/-- After some constructors the cursor has passed no number that is neither a
given tag nor assigned to one of them. -/
theorem exists_cursor (given : List Int) (next : Nat)
    (before : List Constructor) :
    ∃ cursor : Nat,
      (∀ rest, assign given next (before ++ rest) =
        assign given next before ++ assign given cursor rest) ∧
      ∀ number : Nat, next ≤ number → number < cursor → (number : Int) ∉ given →
        ∃ earlier ∈ before, earlier.tag = none ∧
          (earlier.name, (number : Int)) ∈ assign given next before := by
  induction before generalizing next with
  | nil =>
      refine ⟨next, fun rest => rfl, fun number fromNext below => ?_⟩
      omega
  | cons c before ih =>
      simp only [List.cons_append, assign]
      cases declared : c.tag with
      | some own =>
          obtain ⟨cursor, splits, passed⟩ := ih next
          refine ⟨cursor, fun rest => congrArg _ (splits rest), ?_⟩
          intro number fromNext below free
          obtain ⟨earlier, member, untagged, taken⟩ :=
            passed number fromNext below free
          exact ⟨earlier, List.mem_cons_of_mem _ member, untagged,
            List.mem_cons_of_mem _ taken⟩
      | none =>
          obtain ⟨-, least⟩ := leastFree_isLeast given next
          obtain ⟨cursor, splits, passed⟩ := ih (leastFree given next + 1)
          refine ⟨cursor, fun rest => congrArg _ (splits rest), ?_⟩
          intro number fromNext below free
          have notBelow : leastFree given next ≤ number :=
            least ⟨fromNext, free⟩
          rcases Nat.eq_or_lt_of_le notBelow with rfl | above
          · exact ⟨c, List.mem_cons_self, declared, List.mem_cons_self⟩
          · obtain ⟨earlier, member, untagged, taken⟩ :=
              passed number above below free
            exact ⟨earlier, List.mem_cons_of_mem _ member, untagged,
              List.mem_cons_of_mem _ taken⟩

/-- Under distinct names the tag of a name is the one it is entered with. -/
theorem tagOf?_eq_some_iff {table : TagTable}
    (distinct : (table.entries.map Prod.fst).Nodup) {name : Name} {tag : Int} :
    table.tagOf? name = some tag ↔ (name, tag) ∈ table.entries := by
  rw [tagOf?, List.lookup_eq_some_iff]
  constructor
  · rintro ⟨before, after, split, -⟩
    rw [split]
    exact List.mem_append_right _ List.mem_cons_self
  · intro member
    obtain ⟨before, after, split⟩ := List.append_of_mem member
    refine ⟨before, after, split, fun entry earlier => bne_iff_ne.mpr ?_⟩
    rintro rfl
    rw [split, List.map_append, List.map_cons] at distinct
    exact (List.nodup_append.mp distinct).2.2 _ (List.mem_map_of_mem earlier) _
      List.mem_cons_self rfl

/-- What the tags of declared constructors are. -/
structure Assigns (constructors : List Constructor) (table : TagTable) :
    Prop where
  declared : ∀ name, (∃ tag, table.tagOf? name = some tag) ↔
    name ∈ constructors.map Constructor.name
  injective : ∀ name other tag, table.tagOf? name = some tag →
    table.tagOf? other = some tag →
    name = other
  nonnegative : ∀ name tag, table.tagOf? name = some tag → 0 ≤ tag
  given : ∀ c ∈ constructors, ∀ tag, c.tag = some tag →
    table.tagOf? c.name = some tag
  least : ∀ before c after, constructors = before ++ c :: after → c.tag = none →
    ∃ tag, table.tagOf? c.name = some tag ∧
      IsLeast {number : Int | 0 ≤ number ∧
        number ∉ constructors.filterMap Constructor.tag ∧ ∀ earlier ∈ before,
        earlier.tag = none → table.tagOf? earlier.name ≠ some number} tag

theorem ofConstructors_eq_ok_iff {constructors : List Constructor}
    {table : TagTable} :
    ofConstructors constructors = .ok table ↔ conflicts constructors = [] ∧
      table.entries = assign (constructors.filterMap Constructor.tag) 0
        constructors := by
  rw [ofConstructors]
  cases found : conflicts constructors with
  | nil =>
      simp only [Except.ok.injEq, true_and]
      constructor
      · rintro rfl
        rfl
      · intro same
        rw [← same]
  | cons conflict others => simp only [reduceCtorEq, false_and]

section Built

variable {constructors : List Constructor} {table : TagTable}
  (built : ofConstructors constructors = .ok table)

include built

theorem entries_of_built :
    table.entries = assign (constructors.filterMap Constructor.tag) 0
      constructors :=
  (ofConstructors_eq_ok_iff.mp built).2

theorem names_of_built : (constructors.map Constructor.name).Nodup :=
  (conflicts_eq_nil_iff.mp (ofConstructors_eq_ok_iff.mp built).1).1

theorem tagOf?_of_built {name : Name} {tag : Int} :
    table.tagOf? name = some tag ↔ (name, tag) ∈ table.entries := by
  apply tagOf?_eq_some_iff
  rw [entries_of_built built, map_fst_assign]
  exact names_of_built built

theorem exists_tagOf?_iff (name : Name) :
    (∃ tag, table.tagOf? name = some tag) ↔
    name ∈ constructors.map Constructor.name := by
  simp only [tagOf?_of_built built]
  rw [← map_fst_assign (constructors.filterMap Constructor.tag) 0 constructors,
    ← entries_of_built built, List.mem_map]
  constructor
  · rintro ⟨tag, member⟩
    exact ⟨(name, tag), member, rfl⟩
  · rintro ⟨⟨_, tag⟩, member, rfl⟩
    exact ⟨tag, member⟩

theorem tagOf?_injective {name other : Name} {tag : Int}
    (entered : table.tagOf? name = some tag)
    (otherEntered : table.tagOf? other = some tag) :
    name = other := by
  obtain ⟨-, -, distinctGiven⟩ :=
    conflicts_eq_nil_iff.mp (ofConstructors_eq_ok_iff.mp built).1
  have distinct : (table.entries.map Prod.snd).Nodup := by
    rw [entries_of_built built]
    exact nodup_assign distinctGiven (List.Subset.refl _)
  have same : (name, tag) = (other, tag) :=
    List.inj_on_of_nodup_map distinct ((tagOf?_of_built built).mp entered)
      ((tagOf?_of_built built).mp otherEntered) rfl
  exact congrArg Prod.fst same

theorem tagOf?_nonnegative {name : Name} {tag : Int}
    (entered : table.tagOf? name = some tag) :
    0 ≤ tag := by
  obtain ⟨-, givenTags, -⟩ :=
    conflicts_eq_nil_iff.mp (ofConstructors_eq_ok_iff.mp built).1
  have member := (tagOf?_of_built built).mp entered
  rw [entries_of_built built] at member
  rcases mem_assign member with isGiven | ⟨notBelow, -⟩
  · exact givenTags tag isGiven
  · exact notBelow

/-- A constructor without a tag gets the least number that is left. -/
theorem isLeast_tagOf? {before after : List Constructor} {c : Constructor}
    (split : constructors = before ++ c :: after) (untagged : c.tag = none) :
    ∃ tag, table.tagOf? c.name = some tag ∧
      IsLeast {number : Int | 0 ≤ number ∧
        number ∉ constructors.filterMap Constructor.tag ∧ ∀ earlier ∈ before,
        earlier.tag = none → table.tagOf? earlier.name ≠ some number} tag := by
  let given := constructors.filterMap Constructor.tag
  obtain ⟨cursor, splits, passed⟩ := exists_cursor given 0 before
  obtain ⟨⟨-, free⟩, least⟩ := leastFree_isLeast given cursor
  have entries : table.entries = assign given 0 before ++
      (c.name, (leastFree given cursor : Int)) ::
        assign given (leastFree given cursor + 1) after := by
    have whole : table.entries = assign given 0 (before ++ c :: after) :=
      (entries_of_built built).trans (congrArg (assign given 0) split)
    rw [whole, splits, assign, untagged]
  have entered : table.tagOf? c.name = some (leastFree given cursor : Int) := by
    rw [tagOf?_of_built built, entries]
    exact List.mem_append_right _ List.mem_cons_self
  refine ⟨_, entered, ⟨Int.natCast_nonneg _, free, ?_⟩, ?_⟩
  · intro earlier member _ taken
    have same := tagOf?_injective built taken entered
    have names := names_of_built built
    rw [split, List.map_append, List.map_cons] at names
    exact (List.nodup_append.mp names).2.2 _ (List.mem_map_of_mem member) _
      List.mem_cons_self same
  · rintro number ⟨nonnegative, notGiven, notTaken⟩
    obtain ⟨number, rfl⟩ := Int.eq_ofNat_of_zero_le nonnegative
    by_contra smaller
    have below : number < cursor := by
      by_contra fromCursor
      have := least ⟨Nat.le_of_not_lt fromCursor, notGiven⟩
      omega
    obtain ⟨earlier, member, alsoUntagged, taken⟩ :=
      passed number (Nat.zero_le _) below notGiven
    refine notTaken earlier member alsoUntagged ((tagOf?_of_built built).mpr ?_)
    rw [entries]
    exact List.mem_append_left _ taken

end Built

/-- Declarations have a tag table exactly if their names are distinct and the
given tags are distinct and not negative.  The table has tags for the declared
names only, each of them given or the least that was left. -/
theorem tags_given_or_least_free (constructors : List Constructor) :
    ((∃ table, ofConstructors constructors = .ok table) ↔
      (constructors.map Constructor.name).Nodup ∧
        (∀ tag ∈ constructors.filterMap Constructor.tag, 0 ≤ tag) ∧
        (constructors.filterMap Constructor.tag).Nodup) ∧
      ∀ table, ofConstructors constructors = .ok table →
      table.Assigns constructors := by
  constructor
  · rw [← conflicts_eq_nil_iff]
    constructor
    · rintro ⟨table, built⟩
      exact (ofConstructors_eq_ok_iff.mp built).1
    · intro noConflict
      exact ⟨⟨_⟩, ofConstructors_eq_ok_iff.mpr ⟨noConflict, rfl⟩⟩
  · intro table built
    refine ⟨exists_tagOf?_iff built, fun _ _ _ => tagOf?_injective built,
      fun _ _ => tagOf?_nonnegative built, ?_, fun _ _ _ =>
        isLeast_tagOf? built⟩
    intro c member tag declared
    rw [tagOf?_of_built built, entries_of_built built]
    exact mem_assign_of_tag member declared

/-- Given tags before, between and after the constructors that have none. -/
def mixedTags : List Constructor :=
  [⟨.user "Leaf", 0, none⟩, ⟨.user "Node", 2, some 1⟩, ⟨.user "Edge", 1, none⟩,
    ⟨.user "Root", 1, some 0⟩, ⟨.user "Link", 2, none⟩,
    ⟨.user "Ring", 1, some 3⟩]

theorem tags_given_or_least_free_mixedTags :
    ∃ table, ofConstructors mixedTags = .ok table ∧ table.Assigns mixedTags ∧
      mixedTags.map (fun c => table.tagOf? c.name) =
        [some 2, some 1, some 4, some 0, some 5, some 3] :=
  ⟨⟨_⟩, rfl, (tags_given_or_least_free mixedTags).2 _ rfl, rfl⟩

end TailLoop.TagTable
