/-!
# Eventual values

A computation that may go on for ever is described by what it comes to within `n` steps, for every
`n`: nothing as long as `n` is too small, and then always the same value.  Its eventual value is
that value, if there is one.  The bound is a counter only, and it does not show in what is said of
an eventual value.

## Main Definitions

* `eventual` — the value that a family comes to.
* `Settles` — families that keep a value once they have come to it.

## Main Statements

* `Settles.eventual_eq_some_iff` — the eventual value is the value at some bound.
* `Settles.eventual_bind` — one computation after another comes to what the second comes to from the
  eventual value of the first.

## Design Notes

An eventual value is found by trying one bound after another.  Where no bound is enough the search
goes on for ever, and nothing is known of the bound that it stands for; but whatever that bound is,
the family has no value there.
-/

namespace ElmManifest

variable {α β : Type}

/-- The first bound from `n` on at which the family has a value. -/
def firstBound (p : Nat → Option α) (n : Nat) : Option Nat :=
  repeatM (fun n => some (if (p n).isSome then .inr n else .inl (n + 1))) n

/-- The value that a family comes to; none if it comes to none. -/
def eventual (p : Nat → Option α) : Option α :=
  (firstBound p 0).bind p

/-- A family that keeps a value once it has come to it, as a computation with a bound does: more
room never changes an answer that has been given. -/
structure Settles (p : Nat → Option α) : Prop where
  /-- The value at a bound is the value at the next one. -/
  keeps : ∀ n a, p n = some a → p (n + 1) = some a

theorem firstBound_of_isSome {p : Nat → Option α} {n : Nat} (h : (p n).isSome) :
    firstBound p n = some n := by
  rw [firstBound, repeatM_eq_of_monadTail]
  simp [repeatM.body, h]

theorem firstBound_of_eq_none {p : Nat → Option α} {n : Nat} (h : p n = none) :
    firstBound p n = firstBound p (n + 1) := by
  rw [firstBound, repeatM_eq_of_monadTail]
  simp [repeatM.body, h, firstBound]

namespace Settles

variable {p : Nat → Option α} {q : α → Nat → Option β}

theorem some_add (h : Settles p) {n : Nat} {a : α} (hvalue : p n = some a) (k : Nat) :
    p (n + k) = some a := by
  induction k with
  | zero => exact hvalue
  | succ k ih => exact h.keeps _ a ih

/-- Whatever bound the search starts from, it comes to the value. -/
private theorem firstBound_bind (h : Settles p) {a : α} (k : Nat) :
    ∀ n, p (n + k) = some a → (firstBound p n).bind p = some a := by
  induction k with
  | zero =>
      intro n hvalue
      rw [firstBound_of_isSome (by simp [show p n = some a from hvalue])]
      exact hvalue
  | succ k ih =>
      intro n hvalue
      cases hn : p n with
      | none =>
          rw [firstBound_of_eq_none hn]
          exact ih (n + 1) (by rw [← hvalue]; congr 1; omega)
      | some b =>
          rw [firstBound_of_isSome (by simp [hn]), Option.bind_some, ← hvalue]
          exact hn.trans (h.some_add hn (k + 1)).symm

/-- **The eventual value is the value at some bound**, and so at every larger one. -/
theorem eventual_eq_some_iff (h : Settles p) {a : α} :
    eventual p = some a ↔ ∃ n, p n = some a := by
  constructor
  · intro heventual
    obtain ⟨n, -, hvalue⟩ := Option.bind_eq_some_iff.mp heventual
    exact ⟨n, hvalue⟩
  · rintro ⟨n, hvalue⟩
    exact h.firstBound_bind n 0 (by rw [Nat.zero_add]; exact hvalue)

theorem const (a : Option α) : Settles fun _ => a :=
  ⟨fun _ _ hvalue => hvalue⟩

theorem succ (h : Settles p) : Settles fun n => p (n + 1) :=
  ⟨fun n a hvalue => h.keeps (n + 1) a hvalue⟩

theorem bind (hp : Settles p) (hq : ∀ a, Settles (q a)) :
    Settles fun n => (p n).bind fun a => q a n := by
  refine ⟨fun n b hvalue => ?_⟩
  obtain ⟨a, ha, hb⟩ := Option.bind_eq_some_iff.mp hvalue
  exact Option.bind_eq_some_iff.mpr ⟨a, hp.keeps n a ha, (hq a).keeps n b hb⟩

theorem map (hp : Settles p) (f : α → β) : Settles fun n => (p n).map f := by
  refine ⟨fun n b hvalue => ?_⟩
  obtain ⟨a, ha, rfl⟩ := Option.map_eq_some_iff.mp hvalue
  exact Option.map_eq_some_iff.mpr ⟨a, hp.keeps n a ha, rfl⟩

theorem eventual_const (a : α) : eventual (fun _ => some a) = some a :=
  (const (some a)).eventual_eq_some_iff.mpr ⟨0, rfl⟩

/-- A bound that is counted from one on makes no difference. -/
theorem eventual_succ (h : Settles p) : (eventual fun n => p (n + 1)) = eventual p := by
  ext a
  rw [h.succ.eventual_eq_some_iff, h.eventual_eq_some_iff]
  constructor
  · rintro ⟨n, hvalue⟩
    exact ⟨n + 1, hvalue⟩
  · rintro ⟨n, hvalue⟩
    exact ⟨n, h.keeps n a hvalue⟩

/-- One computation after another: the larger of two bounds is enough for both. -/
theorem eventual_bind (hp : Settles p) (hq : ∀ a, Settles (q a)) :
    (eventual fun n => (p n).bind fun a => q a n) =
      (eventual p).bind fun a => eventual (q a) := by
  ext b
  rw [(hp.bind hq).eventual_eq_some_iff, Option.bind_eq_some_iff]
  constructor
  · rintro ⟨n, hvalue⟩
    obtain ⟨a, ha, hb⟩ := Option.bind_eq_some_iff.mp hvalue
    exact ⟨a, hp.eventual_eq_some_iff.mpr ⟨n, ha⟩, (hq a).eventual_eq_some_iff.mpr ⟨n, hb⟩⟩
  · rintro ⟨a, ha, hb⟩
    obtain ⟨n, ha⟩ := hp.eventual_eq_some_iff.mp ha
    obtain ⟨m, hb⟩ := (hq a).eventual_eq_some_iff.mp hb
    refine ⟨n + m, Option.bind_eq_some_iff.mpr ⟨a, hp.some_add ha m, ?_⟩⟩
    rw [Nat.add_comm]
    exact (hq a).some_add hb n

theorem eventual_map (hp : Settles p) (f : α → β) :
    (eventual fun n => (p n).map f) = (eventual p).map f := by
  ext b
  rw [(hp.map f).eventual_eq_some_iff, Option.map_eq_some_iff]
  constructor
  · rintro ⟨n, hvalue⟩
    obtain ⟨a, ha, rfl⟩ := Option.map_eq_some_iff.mp hvalue
    exact ⟨a, hp.eventual_eq_some_iff.mpr ⟨n, ha⟩, rfl⟩
  · rintro ⟨a, ha, rfl⟩
    obtain ⟨n, ha⟩ := hp.eventual_eq_some_iff.mp ha
    exact ⟨n, Option.map_eq_some_iff.mpr ⟨a, ha, rfl⟩⟩

end Settles

end ElmManifest
