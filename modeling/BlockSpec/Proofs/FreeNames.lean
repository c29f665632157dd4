import BlockSpec.Proofs.MethodNames

/-! # The search for a free name

A method gets the name that it would like to have. When that one is taken, numbers are put behind
it, one after the other from a given number on, until a name is free:

    base  ─taken→  base_n  ─taken→  base_(n+1)  ─taken→  …  ─free→  the name

The search has no bound of its own. It ends because no name is tried twice: different numbers have
different digits, so every turn meets another one of the taken names. The number that is reached is
the least one whose name is free, also where taken names look like numbered ones, and it is no
larger than the first number and the count of taken names together. -/

namespace BlockSpec

namespace MethodName

variable {taken : List Text} {base : Text} {k m n : Nat}

/-! ### Turn by turn -/

/-- Where a search stands: the name that is tried, and the number for the next one. -/
structure Search where
  name : Text
  next : Nat
  deriving DecidableEq, Repr

namespace Search

variable {s last : Search}

/-- One turn: the next numbered name is tried. -/
def turn (base : Text) (s : Search) : Search := ⟨numbered base s.next, s.next + 1⟩

/-- A search that ends after some turns: there is another turn as long as the name that is tried is
taken. -/
inductive Run (taken : List Text) (base : Text) : Search → Nat → Search → Prop where
  | found {s : Search} (free : s.name ∉ taken) : Run taken base s 0 s
  | turn {s last : Search} {k : Nat} (held : s.name ∈ taken)
      (rest : Run taken base (s.turn base) k last) : Run taken base s (k + 1) last

/-- Where a search from `n` on stands after `k` turns, if it did not end before. -/
def reached (base : Text) (n k : Nat) : Search := ⟨tried base n k, n + k⟩

theorem turn_reached (base : Text) (n k : Nat) :
    (reached base n k).turn base = reached base n (k + 1) := rfl

theorem run_zero_iff : Run taken base s 0 last ↔ last = s ∧ s.name ∉ taken := by
  constructor
  · rintro (hfree | _)
    exact ⟨rfl, hfree⟩
  · rintro ⟨rfl, hfree⟩
    exact .found hfree

theorem run_succ_iff : Run taken base s (k + 1) last ↔
    s.name ∈ taken ∧ Run taken base (s.turn base) k last := by
  constructor
  · rintro (_ | ⟨hheld, hrest⟩)
    exact ⟨hheld, hrest⟩
  · rintro ⟨hheld, hrest⟩
    exact .turn hheld hrest

/-- A search that is under way goes on over taken names and ends at a free one. -/
theorem run_reached_iff : Run taken base (reached base n k) m last ↔
    last = reached base n (k + m) ∧ tried base n (k + m) ∉ taken ∧
      ∀ j, k ≤ j → j < k + m → tried base n j ∈ taken := by
  induction m generalizing k with
  | zero =>
    rw [run_zero_iff]
    refine and_congr_right fun _ => (and_iff_left fun j hle hlt => ?_).symm
    exact absurd hlt (not_lt.mpr hle)
  | succ m ih =>
    rw [run_succ_iff, turn_reached, ih, Nat.add_right_comm, Nat.add_assoc k m 1]
    constructor
    · rintro ⟨hheld, hlast, hfree, hbetween⟩
      refine ⟨hlast, hfree, fun j hle hlt => ?_⟩
      rcases hle.eq_or_lt with rfl | hlt'
      · exact hheld
      · exact hbetween j hlt' hlt
    · rintro ⟨hlast, hfree, hbetween⟩
      exact ⟨hbetween k le_rfl (by omega), hlast, hfree,
        fun j hle hlt => hbetween j (Nat.le_of_succ_le hle) hlt⟩

/-- A search from its start ends with the first free one of the names that it tries. -/
theorem run_iff : Run taken base ⟨base, n⟩ k last ↔
    last = reached base n k ∧ tried base n k ∉ taken ∧ ∀ j < k, tried base n j ∈ taken := by
  have h : Run taken base (reached base n 0) k last ↔ _ := run_reached_iff
  simpa [reached, tried] using h

end Search

/-! ### The outcome -/

/-- What a search from `n` on comes to: a name, and the names that are taken from then on. -/
structure FirstFree (taken : List Text) (base : Text) (n : Nat) (name : Text)
    (takenAfter : List Text) : Prop where
  /-- The search ends, with that name, after no more turns than there are taken names. -/
  ends : ∃ turns ≤ taken.dedup.length, ∀ k last,
    Search.Run taken base ⟨base, n⟩ k last ↔ k = turns ∧ last = ⟨name, n + turns⟩
  fresh : name ∉ taken
  /-- Nothing but the name is added. -/
  added : ∀ x, x ∈ takenAfter ↔ x = name ∨ x ∈ taken
  base_of_free : base ∉ taken → name = base
  numbered_of_taken : base ∈ taken →
    ∃ i, IsLeast {i | n ≤ i ∧ numbered base i ∉ taken} i ∧ name = numbered base i

/-- Behind a taken base, the names are tried in the order of their numbers. -/
theorem isLeast_of_tried (hfree : tried base n (k + 1) ∉ taken)
    (htaken : ∀ j < k + 1, tried base n j ∈ taken) :
    IsLeast {i | n ≤ i ∧ numbered base i ∉ taken} (n + k) := by
  refine ⟨⟨Nat.le_add_right n k, hfree⟩, ?_⟩
  rintro i ⟨hle, hi⟩
  by_contra hlt
  obtain ⟨j, rfl⟩ := Nat.exists_eq_add_of_le hle
  exact hi (htaken (j + 1) (by omega))

/-- The search ends with the name that the class gives to the method. -/
theorem firstFree_free (taken : List Text) (base : Text) (n : Nat) :
    FirstFree taken base n (free taken base n) (free taken base n :: taken) := by
  obtain ⟨turns, heq, hfree, htaken⟩ := exists_free_eq_tried taken base n
  refine ⟨⟨turns, le_length_of_tried htaken, fun k last => ?_⟩, heq ▸ hfree,
    fun x => List.mem_cons, fun hbase => ?_, fun hbase => ?_⟩
  · rw [Search.run_iff, heq]
    constructor
    · rintro ⟨rfl, hk, hbefore⟩
      -- two first free names are the same
      have hturns : k = turns := by
        rcases lt_trichotomy k turns with hlt | heq | hlt
        · exact absurd (htaken k hlt) hk
        · exact heq
        · exact absurd (hbefore turns hlt) hfree
      exact ⟨hturns, by rw [hturns, Search.reached]⟩
    · rintro ⟨rfl, rfl⟩
      exact ⟨rfl, hfree, htaken⟩
  · rw [heq]
    cases turns with
    | zero => rfl
    | succ k => exact absurd (htaken 0 (Nat.succ_pos k)) hbase
  · cases turns with
    | zero => exact absurd hbase hfree
    | succ k => exact ⟨n + k, isLeast_of_tried hfree htaken, heq⟩

/-- Whatever names are taken, a row of set-up methods and a row of tests each start with the first
free name of their first block, and go on with that name taken as well. -/
theorem rows_take_first_free (taken : List Text) (index : Nat) (b : Block) (bs : List Block) :
    (∃ name takenAfter, setUps taken index (b :: bs) = name :: setUps takenAfter (index + 1) bs ∧
      FirstFree taken (setUp b index) index name takenAfter) ∧
    ∃ name takenAfter, tests taken (b :: bs) = name :: tests takenAfter bs ∧
      FirstFree taken (test b) 2 name takenAfter :=
  ⟨⟨_, _, rfl, firstFree_free taken (setUp b index) index⟩,
    ⟨_, _, rfl, firstFree_free taken (test b) 2⟩⟩

/-- Names that look like numbered ones are passed over only while they follow each other. -/
example : free ["x".toList, "x_2".toList, "x_4".toList] "x".toList 2 = "x_3".toList := by decide

end MethodName

end BlockSpec
