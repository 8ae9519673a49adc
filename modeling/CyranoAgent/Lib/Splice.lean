import Mathlib.Data.List.Pairwise
import Mathlib.Data.List.Sort
import Mathlib.Tactic.Common

/-!
# Edits of a list

An edit puts a text in the place of a range. Edits made at once take their ranges from the original
(`simultaneous`). Edits made one after the other, from the last start to the first and otherwise as
they are listed (`applyEdits`), find their ranges where they were, as long as these are apart; but
an insertion that is listed before an edit of a range with the same start moves that range first.

`applyEdits_eq_iff` says when both come to the same, and `relisted_eq_iff` when they do in every
order in which edits of different ranges can be listed.
-/

namespace Lib

/-- A text in the place of a range. -/
structure Edit (α : Type) where
  start : ℕ
  stop : ℕ
  text : List α
  deriving DecidableEq

namespace Edit

variable {α : Type}

/-- The range of an edit. -/
def range (e : Edit α) : ℕ × ℕ := (e.start, e.stop)

/-- The range is one of the list. -/
def Valid (l : List α) (e : Edit α) : Prop := e.start ≤ e.stop ∧ e.stop ≤ l.length

/-- Two ranges share nothing, and none of them lies within the other. -/
def Disjoint (a b : Edit α) : Prop := a.stop ≤ b.start ∨ b.stop ≤ a.start

instance (a b : Edit α) : Decidable (Disjoint a b) := inferInstanceAs (Decidable (_ ∨ _))

/-- Make one edit. -/
def splice (l : List α) (e : Edit α) : List α := l.take e.start ++ e.text ++ l.drop e.stop

/-- The edits from the last start to the first, those of one start as they are listed. -/
def descending (edits : List (Edit α)) : List (Edit α) :=
  edits.insertionSort fun a b => b.start ≤ a.start

/-- Make the edits one after the other. -/
def applyEdits (l : List α) (edits : List (Edit α)) : List α := (descending edits).foldl splice l

/-- The texts of insertions at one place: what is inserted later stands before. -/
def inserted (edits : List (Edit α)) : List α := edits.reverse.flatMap text

/-- The edits that insert at a place. -/
def insertionsAt (edits : List (Edit α)) (p : ℕ) : List (Edit α) :=
  edits.filter fun e => e.range = (p, p)

/-- The edits that replace elements from a place on. -/
def replacementsAt (edits : List (Edit α)) (p : ℕ) : List (Edit α) :=
  edits.filter fun e => e.start = p ∧ p < e.stop

/-- The element at a place, unless an edit replaces it. -/
def keptAt (l : List α) (edits : List (Edit α)) (p : ℕ) : List α :=
  if ∃ e ∈ edits, e.start ≤ p ∧ p < e.stop then [] else l[p]?.toList

/-- What edits made at once leave of a place: what they insert there, what they put for the elements
from there on, and the element itself. -/
def leftAt (l : List α) (edits : List (Edit α)) (p : ℕ) : List α :=
  inserted (insertionsAt edits p) ++ (replacementsAt edits p).flatMap text ++ keptAt l edits p

/-- Make the edits at once. -/
def simultaneous (l : List α) (edits : List (Edit α)) : List α :=
  (List.range (l.length + 1)).flatMap (leftAt l edits)

/-- The elements of a range. -/
def slice (l : List α) (e : Edit α) : List α := (l.drop e.start).take (e.stop - e.start)

/-- Insertions at the start of an edit may be made before it: the text comes out the same although
they move its range. -/
def Absorbs (l : List α) (insertions : List (Edit α)) (e : Edit α) : Prop :=
  e.text ++ (inserted insertions ++ slice l e).drop (e.stop - e.start) =
    inserted insertions ++ e.text

/-- The edits of one start come out right in the order in which they are listed. -/
def SettledAt (l : List α) (edits : List (Edit α)) (p : ℕ) : Prop :=
  ∀ before e after, edits.filter (·.start = p) = before ++ e :: after → p < e.stop →
    Absorbs l before e

/-! ### Making edits one after the other -/

section

variable {l : List α} {edits : List (Edit α)} {e : Edit α} {p : ℕ}

theorem inserted_cons (e : Edit α) (edits : List (Edit α)) :
    inserted (e :: edits) = inserted edits ++ e.text := by
  simp [inserted]

theorem inserted_append (edits edits' : List (Edit α)) :
    inserted (edits ++ edits') = inserted edits' ++ inserted edits := by
  simp [inserted]

theorem splice_append (before after : List α) (hstart : e.start = before.length)
    (hstop : e.start ≤ e.stop) :
    splice (before ++ after) e = before ++ (e.text ++ after.drop (e.stop - e.start)) := by
  rw [splice, List.take_append_of_le_length hstart.le, hstart, List.take_length,
    List.append_assoc, List.drop_append, List.drop_eq_nil_of_le (hstart ▸ hstop), List.nil_append]

/-- Insertions at a place move what comes after it. -/
theorem foldl_splice_insertions (before after : List α) (hbefore : before.length = p)
    (h : ∀ e ∈ edits, e.range = (p, p)) :
    edits.foldl splice (before ++ after) = before ++ (inserted edits ++ after) := by
  induction edits generalizing after with
  | nil => simp [inserted]
  | cons e edits ih =>
    rw [List.forall_mem_cons] at h
    obtain ⟨hstart, hstop⟩ := Prod.mk.inj h.1
    rw [List.foldl_cons, splice_append _ _ (by omega) (by omega), ih _ h.2, inserted_cons,
      hstart, hstop, Nat.sub_self, List.drop_zero, List.append_assoc]

/-- An edit that no other of the sorted ones precedes, and those that it precedes. -/
theorem orderedInsert_append_of_forall {d : List (Edit α)} (h : ∀ a ∈ edits, a.start ≤ e.start) :
    (d ++ edits).orderedInsert (fun a b => b.start ≤ a.start) e =
      d.orderedInsert (fun a b => b.start ≤ a.start) e ++ edits := by
  induction d with
  | nil =>
    cases edits with
    | nil => rfl
    | cons a edits => simp [h a (by simp)]
  | cons b d ih =>
    rw [List.cons_append, List.orderedInsert_cons, List.orderedInsert_cons, ih]
    split <;> rfl

theorem orderedInsert_of_forall_lt {d : List (Edit α)} (h : ∀ a ∈ d, e.start < a.start) :
    d.orderedInsert (fun a b => b.start ≤ a.start) e = d ++ [e] := by
  induction d with
  | nil => rfl
  | cons a d ih =>
    rw [List.forall_mem_cons] at h
    rw [List.orderedInsert_cons, if_neg (by omega), ih h.2, List.cons_append]

/-- The edits from a place on are made in front of those that start at it, which are made as they
are listed. -/
theorem descending_from (edits : List (Edit α)) (p : ℕ) :
    descending (edits.filter (p ≤ ·.start)) =
      descending (edits.filter (p + 1 ≤ ·.start)) ++ edits.filter (·.start = p) := by
  induction edits with
  | nil => rfl
  | cons e edits ih =>
    rw [descending, descending] at ih ⊢
    have hat : ∀ a ∈ edits.filter (·.start = p), a.start = p := by simp
    rcases lt_trichotomy e.start p with hlt | heq | hgt
    · rw [List.filter_cons_of_neg (by simpa), List.filter_cons_of_neg (by simp; omega),
        List.filter_cons_of_neg (by simp; omega), ih]
    · have hafter : ∀ a ∈ List.insertionSort (fun a b : Edit α => b.start ≤ a.start)
          (edits.filter (p + 1 ≤ ·.start)), e.start < a.start := by
        intro a ha
        rw [List.mem_insertionSort, List.mem_filter] at ha
        have hstart := of_decide_eq_true ha.2
        omega
      rw [List.filter_cons_of_pos (by simp; omega), List.filter_cons_of_neg (by simp; omega),
        List.filter_cons_of_pos (by simpa), List.insertionSort_cons, ih,
        orderedInsert_append_of_forall (fun a ha => by rw [hat a ha, heq]),
        orderedInsert_of_forall_lt hafter, List.append_assoc, List.singleton_append]
    · rw [List.filter_cons_of_pos (by simp; omega), List.filter_cons_of_pos (by simp; omega),
        List.filter_cons_of_neg (by simp; omega), List.insertionSort_cons, ih,
        orderedInsert_append_of_forall (fun a ha => by rw [hat a ha]; omega),
        List.insertionSort_cons]

theorem applyEdits_from (l : List α) (edits : List (Edit α)) (p : ℕ) :
    applyEdits l (edits.filter (p ≤ ·.start)) =
      (edits.filter (·.start = p)).foldl splice
        (applyEdits l (edits.filter (p + 1 ≤ ·.start))) := by
  rw [applyEdits, descending_from, List.foldl_append, applyEdits]

/-- What edits made at once leave from a place on. -/
def leftFrom (l : List α) (edits : List (Edit α)) (p : ℕ) : List α :=
  (List.range' p (l.length + 1 - p)).flatMap (leftAt l edits)

theorem leftFrom_succ (hp : p ≤ l.length) :
    leftFrom l edits p = leftAt l edits p ++ leftFrom l edits (p + 1) := by
  rw [leftFrom, show l.length + 1 - p = l.length - p + 1 by omega, List.range'_succ,
    List.flatMap_cons, leftFrom, Nat.add_sub_add_right]

theorem leftFrom_eq_of_nil {q : ℕ} (hpq : p < q) (hq : q ≤ l.length + 1)
    (hnil : ∀ x, p < x → x < q → leftAt l edits x = []) :
    leftFrom l edits (p + 1) = leftFrom l edits q := by
  obtain ⟨k, rfl⟩ : ∃ k, q = p + 1 + k := ⟨q - p - 1, by omega⟩
  have hrange : List.range' (p + 1) (l.length + 1 - (p + 1)) =
      List.range' (p + 1) k ++ List.range' (p + 1 + k) (l.length + 1 - (p + 1 + k)) := by
    rw [List.range'_append_1]
    congr 1
    omega
  rw [leftFrom, hrange, List.flatMap_append, List.flatMap_eq_nil_iff.mpr, List.nil_append, leftFrom]
  intro x hx
  rw [List.mem_range'_1] at hx
  exact hnil x (by omega) hx.2

/-- The edits from a place on leave `rest` of the list from there on: as much as edits made at once,
and the same exactly when all starts from there on are settled. -/
structure LeavesFrom (l : List α) (edits : List (Edit α)) (p : ℕ) (rest : List α) : Prop where
  applied : applyEdits l (edits.filter (p ≤ ·.start)) = l.take p ++ rest
  length : rest.length = (leftFrom l edits p).length
  settled : rest = leftFrom l edits p ↔ ∀ q, p ≤ q → SettledAt l edits q

/-! ### Edits that are apart -/

/-- Edits of ranges of a list that are apart. -/
structure Apart (l : List α) (edits : List (Edit α)) : Prop where
  valid : ∀ e ∈ edits, e.Valid l
  disjoint : edits.Pairwise Disjoint

theorem Disjoint.symm {a b : Edit α} (h : Disjoint a b) : Disjoint b a := Or.symm h

namespace Apart

variable (h : Apart l edits)
include h

theorem disjoint_of_ne {a : Edit α} (ha : a ∈ edits) (he : e ∈ edits) (hne : a ≠ e) :
    Disjoint a e :=
  haveI : Std.Symm (Disjoint (α := α)) := ⟨fun _ _ => Disjoint.symm⟩
  h.disjoint.forall ha he hne

/-- No other edit starts within the range of an edit. -/
theorem start_not_within {a : Edit α} (ha : a ∈ edits) (he : e ∈ edits) :
    ¬(e.start < a.start ∧ a.start < e.stop) := by
  rintro ⟨hlt, hgt⟩
  have hvalid := (h.valid a ha).1
  rcases h.disjoint_of_ne ha he (by rintro rfl; omega) with hle | hle <;> omega

/-- Among the edits of one start, those before and after the one that replaces anything are
insertions. -/
theorem insertions_around {before after : List (Edit α)}
    (hsplit : edits.filter (·.start = p) = before ++ e :: after) (hp : p < e.stop) :
    (∀ a ∈ before ++ after, a.range = (p, p)) ∧ e ∈ edits ∧ e.start = p := by
  have hstart : ∀ a ∈ before ++ e :: after, a ∈ edits ∧ a.start = p := by
    intro a ha
    rw [← hsplit, List.mem_filter] at ha
    exact ⟨ha.1, of_decide_eq_true ha.2⟩
  have hpairs := h.disjoint.sublist (List.filter_sublist (p := fun a => a.start = p))
  rw [hsplit, List.pairwise_append, List.pairwise_cons] at hpairs
  have he := hstart e (by simp)
  refine ⟨fun a ha => ?_, he⟩
  have ha' := hstart a (by rcases List.mem_append.mp ha with hb | hb <;> simp [hb])
  have hvalid := (h.valid a ha'.1).1
  have hdisjoint : Disjoint a e := by
    rcases List.mem_append.mp ha with hb | hb
    · exact hpairs.2.2 a hb e (by simp)
    · exact (hpairs.2.1.1 a hb).symm
  rw [Disjoint, he.2, ha'.2] at hdisjoint
  have hstop : a.stop = p := by omega
  rw [range, ha'.2, hstop]

/-- Where no edit replaces anything, insertions come before the element. -/
theorem leftAt_of_insertions (hwithin : ∀ e ∈ edits, ¬(e.start < p ∧ p < e.stop))
    (hnone : ∀ e ∈ edits, e.start = p → e.stop ≤ p) :
    (∀ e ∈ edits.filter (·.start = p), e.range = (p, p)) ∧
      leftAt l edits p = inserted (edits.filter (·.start = p)) ++ l[p]?.toList := by
  have hall : ∀ e ∈ edits.filter (·.start = p), e.range = (p, p) := by
    intro e he
    rw [List.mem_filter] at he
    have hstart : e.start = p := of_decide_eq_true he.2
    have hvalid := (h.valid e he.1).1
    have hstop := hnone e he.1 hstart
    rw [range, hstart, show e.stop = p by omega]
  have hinsert : insertionsAt edits p = edits.filter (·.start = p) := by
    refine List.filter_congr fun e he => decide_eq_decide.mpr ⟨congrArg Prod.fst, fun hstart => ?_⟩
    exact hall e (List.mem_filter.mpr ⟨he, by simpa using hstart⟩)
  have hreplace : replacementsAt edits p = [] := by
    refine List.filter_eq_nil_iff.mpr fun e he => ?_
    have hstop := hnone e he
    simp only [decide_eq_true_eq, not_and]
    omega
  have hkept : ¬∃ e ∈ edits, e.start ≤ p ∧ p < e.stop := by
    rintro ⟨e, he, hle, hlt⟩
    have hstop := hnone e he
    have hout := hwithin e he
    omega
  refine ⟨hall, ?_⟩
  rw [leftAt, hinsert, hreplace, keptAt, if_neg hkept, List.flatMap_nil, List.append_nil]

/-- Where an edit starts that replaces something, its text comes after the insertions. -/
theorem leftAt_of_replacement {before after : List (Edit α)}
    (hsplit : edits.filter (·.start = p) = before ++ e :: after) (hp : p < e.stop) :
    insertionsAt edits p = before ++ after ∧ replacementsAt edits p = [e] ∧
      leftAt l edits p = inserted after ++ (inserted before ++ e.text) := by
  obtain ⟨hall, he, hstart⟩ := h.insertions_around hsplit hp
  have hstop : ∀ a ∈ before ++ after, a.stop = p := fun a ha => (Prod.mk.inj (hall a ha)).2
  rw [List.forall_mem_append] at hstop
  have hinsert : insertionsAt edits p = before ++ after := by
    have hfilter : insertionsAt edits p = (edits.filter (·.start = p)).filter (·.stop = p) := by
      rw [List.filter_filter, insertionsAt]
      exact List.filter_congr fun a _ => by simp [range, Bool.and_comm]
    rw [hfilter, hsplit, List.filter_append, List.filter_cons_of_neg (by simp; omega),
      List.filter_eq_self.mpr fun a ha => by simpa using hstop.1 a ha,
      List.filter_eq_self.mpr fun a ha => by simpa using hstop.2 a ha]
  have hreplace : replacementsAt edits p = [e] := by
    have hfilter : replacementsAt edits p =
        (edits.filter (·.start = p)).filter (fun a => decide (p < a.stop)) := by
      rw [List.filter_filter, replacementsAt]
      exact List.filter_congr fun a _ => by simp [Bool.and_comm]
    rw [hfilter, hsplit, List.filter_append, List.filter_cons_of_pos (by simpa),
      List.filter_eq_nil_iff.mpr fun a ha => by simp [hstop.1 a ha],
      List.filter_eq_nil_iff.mpr fun a ha => by simp [hstop.2 a ha], List.nil_append]
  refine ⟨hinsert, hreplace, ?_⟩
  rw [leftAt, hinsert, hreplace, keptAt, if_pos ⟨e, he, hstart.le, hp⟩, inserted_append]
  simp

/-- Within the range of an edit nothing is left. -/
theorem leftAt_within (he : e ∈ edits) (hstart : e.start < p) (hstop : p < e.stop) :
    edits.filter (·.start = p) = [] ∧ leftAt l edits p = [] := by
  have hnone : ∀ a ∈ edits, a.start ≠ p := by
    rintro a ha rfl
    exact h.start_not_within ha he ⟨hstart, hstop⟩
  have hinsert : insertionsAt edits p = [] :=
    List.filter_eq_nil_iff.mpr fun a ha => by simp [range, hnone a ha]
  have hreplace : replacementsAt edits p = [] :=
    List.filter_eq_nil_iff.mpr fun a ha => by simp [hnone a ha]
  refine ⟨List.filter_eq_nil_iff.mpr fun a ha => by simpa using hnone a ha, ?_⟩
  rw [leftAt, hinsert, hreplace, keptAt, if_pos ⟨e, he, hstart.le, hstop⟩]
  rfl

/-- An edit that replaces something settles its start exactly when it absorbs the insertions that
are listed before it. -/
theorem settledAt_iff {before after : List (Edit α)}
    (hsplit : edits.filter (·.start = p) = before ++ e :: after) (hp : p < e.stop) :
    SettledAt l edits p ↔ Absorbs l before e := by
  refine ⟨fun hsettled => hsettled before e after hsplit hp, ?_⟩
  intro habsorbs before' e' after' hsplit' hp'
  have hfirst {b a : List (Edit α)} {x : Edit α}
      (hx : edits.filter (·.start = p) = b ++ x :: a) (hlt : p < x.stop) :
      (edits.filter (·.start = p)).takeWhile (·.stop ≤ p) = b := by
    have hall := (h.insertions_around hx hlt).1
    rw [hx, List.takeWhile_append_of_pos, List.takeWhile_cons_of_neg (by simpa), List.append_nil]
    intro y hy
    simp [(Prod.mk.inj (hall y (by simp [hy]))).2]
  obtain rfl : before = before' := (hfirst hsplit hp).symm.trans (hfirst hsplit' hp')
  have hrest := List.append_cancel_left (hsplit.symm.trans hsplit')
  obtain ⟨rfl, -⟩ := List.cons_eq_cons.mp hrest
  exact habsorbs

theorem leavesFrom_end : LeavesFrom l edits (l.length + 1) [] := by
  have hvalid (q : ℕ) (hq : l.length + 1 ≤ q) : ∀ e ∈ edits, e.start < q := by
    intro e he
    obtain ⟨hle, hlen⟩ := h.valid e he
    omega
  have hfilter : edits.filter (l.length + 1 ≤ ·.start) = [] :=
    List.filter_eq_nil_iff.mpr fun e he => by simpa using hvalid _ le_rfl e he
  have hnone : leftFrom l edits (l.length + 1) = [] := by simp [leftFrom]
  refine ⟨?_, by rw [hnone], iff_of_true hnone.symm fun q hq before e after hsplit => ?_⟩
  · rw [hfilter, List.take_of_length_le (Nat.le_succ _), List.append_nil]
    rfl
  · have he : e ∈ edits.filter (·.start = q) := by simp [hsplit]
    rw [List.mem_filter, decide_eq_true_eq] at he
    exact absurd he.2 (hvalid q hq e he.1).ne

/-- Insertions leave their texts in front of the element. -/
theorem leavesFrom_insertions (hp : p ≤ l.length)
    (hwithin : ∀ e ∈ edits, ¬(e.start < p ∧ p < e.stop))
    (hnone : ∀ e ∈ edits, e.start = p → e.stop ≤ p) {rest : List α}
    (hrest : LeavesFrom l edits (p + 1) rest) :
    LeavesFrom l edits p (inserted (edits.filter (·.start = p)) ++ (l[p]?.toList ++ rest)) := by
  obtain ⟨hall, hleft⟩ := h.leftAt_of_insertions hwithin hnone
  refine ⟨?_, ?_, ?_⟩
  · rw [applyEdits_from, hrest.applied, List.take_add_one, List.append_assoc,
      foldl_splice_insertions _ _ (List.length_take_of_le hp) hall]
  · rw [leftFrom_succ hp, hleft]
    simp [hrest.length]
  · rw [leftFrom_succ hp, hleft, List.append_assoc, List.append_cancel_left_eq,
      List.append_cancel_left_eq, hrest.settled]
    refine ⟨fun hlater q hq => ?_, fun hfrom q hq => hfrom q (by omega)⟩
    rcases hq.eq_or_lt with rfl | hlt
    · intro before e after hsplit hstop
      have he := (h.insertions_around hsplit hstop).2
      have hle := hnone e he.1 he.2
      omega
    · exact hlater q hlt

/-- An edit that replaces something leaves its text, in the place of what was there after the
insertions before it. -/
theorem leavesFrom_replacement {before after : List (Edit α)}
    (hsplit : edits.filter (·.start = p) = before ++ e :: after) (hp : p < e.stop) {rest : List α}
    (hrest : LeavesFrom l edits e.stop rest) :
    LeavesFrom l edits p (inserted after ++ ((e.text ++
      (inserted before ++ slice l e).drop (e.stop - e.start)) ++ rest)) := by
  obtain ⟨hall, he, hstart⟩ := h.insertions_around hsplit hp
  obtain ⟨-, -, hleft⟩ := h.leftAt_of_replacement hsplit hp
  rw [List.forall_mem_append] at hall
  have hlen := (h.valid e he).2
  have hfilter : edits.filter (p + 1 ≤ ·.start) = edits.filter (e.stop ≤ ·.start) := by
    refine List.filter_congr fun a ha => decide_eq_decide.mpr ?_
    have hout := h.start_not_within ha he
    omega
  have hplace : (l.take p).length = p := List.length_take_of_le (by omega)
  have hslice : (slice l e).length = e.stop - e.start := by
    rw [slice, List.length_take, List.length_drop]
    omega
  have htake : l.take e.stop = l.take p ++ slice l e := by
    rw [slice, hstart, ← List.take_add, Nat.add_sub_cancel' hp.le]
  have hfrom : leftFrom l edits p =
      inserted after ++ ((inserted before ++ e.text) ++ leftFrom l edits e.stop) := by
    rw [leftFrom_succ (by omega), hleft, List.append_assoc,
      leftFrom_eq_of_nil hp (by omega) fun q hq hlt =>
        (h.leftAt_within he (by omega) hlt).2]
  have hmoved : (e.text ++ (inserted before ++ slice l e).drop (e.stop - e.start)).length =
      (inserted before ++ e.text).length := by
    simp only [List.length_append, List.length_drop, hslice]
    omega
  refine ⟨?_, ?_, ?_⟩
  · rw [applyEdits_from, hfilter, hrest.applied, htake, hsplit, List.foldl_append,
      List.append_assoc, foldl_splice_insertions _ _ hplace hall.1, List.foldl_cons,
      splice_append _ _ (by omega) (by omega), foldl_splice_insertions _ _ hplace hall.2,
      ← List.append_assoc (inserted before), List.drop_append_of_le_length (by simp [hslice]),
      List.append_assoc]
  · have hlength := hrest.length
    rw [hfrom]
    simp only [List.length_append] at hmoved ⊢
    omega
  · have hboth : ((e.text ++ (inserted before ++ slice l e).drop (e.stop - e.start)) ++ rest =
        (inserted before ++ e.text) ++ leftFrom l edits e.stop) ↔
        Absorbs l before e ∧ ∀ q, e.stop ≤ q → SettledAt l edits q := by
      rw [← hrest.settled, Absorbs]
      exact ⟨fun heq => List.append_inj heq hmoved, fun heq => by rw [heq.1, heq.2]⟩
    rw [hfrom, List.append_cancel_left_eq, hboth, ← h.settledAt_iff hsplit hp]
    refine ⟨fun hlater q hq => ?_, fun hall => ⟨hall p le_rfl, fun q hq => hall q (by omega)⟩⟩
    rcases hq.eq_or_lt with rfl | hlt
    · exact hlater.1
    rcases le_or_gt e.stop q with hle | hgt
    · exact hlater.2 q hle
    · intro before' e' after' hsplit'
      rw [(h.leftAt_within he (by omega) hgt).1] at hsplit'
      simp at hsplit'

/-- From every place that lies within no range, the edits leave something. -/
theorem exists_leavesFrom (n : ℕ) (hn : p + n = l.length + 1)
    (hwithin : ∀ e ∈ edits, ¬(e.start < p ∧ p < e.stop)) : ∃ rest, LeavesFrom l edits p rest := by
  induction n using Nat.strong_induction_on generalizing p with
  | _ n ih =>
    rcases n with _ | n
    · obtain rfl : p = l.length + 1 := hn
      exact ⟨[], h.leavesFrom_end⟩
    by_cases hnone : ∀ e ∈ edits, e.start = p → e.stop ≤ p
    · obtain ⟨rest, hrest⟩ := ih n (by omega) (p := p + 1) (by omega) fun e he hout => by
        have hin := hwithin e he
        have hstop := hnone e he
        omega
      exact ⟨_, h.leavesFrom_insertions (by omega) hwithin hnone hrest⟩
    · -- nothing else starts before the end of an edit that replaces something
      push Not at hnone
      obtain ⟨e, he, hstart, hp⟩ := hnone
      obtain ⟨before, after, hsplit⟩ := List.append_of_mem
        (List.mem_filter.mpr ⟨he, by simpa using hstart⟩ : e ∈ edits.filter (·.start = p))
      have hlen := (h.valid e he).2
      obtain ⟨rest, hrest⟩ := ih (l.length + 1 - e.stop) (by omega) (p := e.stop) (by omega)
        fun a ha hout => by
          have hne : a ≠ e := by
            rintro rfl
            omega
          rcases h.disjoint_of_ne ha he hne with hle | hle <;> omega
      exact ⟨_, h.leavesFrom_replacement hsplit hp hrest⟩

/-- **Edits that are apart, made one after the other, come to the same as edits made at once exactly
when** the edits of every start are settled. -/
theorem applyEdits_eq_iff :
    applyEdits l edits = simultaneous l edits ↔ ∀ p, SettledAt l edits p := by
  obtain ⟨rest, hrest⟩ := h.exists_leavesFrom (p := 0) (l.length + 1) (by omega)
    fun e _ hout => absurd hout.1 (Nat.not_lt_zero _)
  have happlied := hrest.applied
  rw [List.filter_eq_self.mpr fun e _ => by simp, List.take_zero, List.nil_append] at happlied
  rw [happlied, simultaneous, List.range_eq_range']
  exact hrest.settled.trans ⟨fun hall q => hall q (Nat.zero_le q), fun hall q _ => hall q⟩

end Apart

end

/-! ### Listing edits in another order -/

/-- The same items in another order, where those of one key keep theirs. -/
def Relists {H K : Type} [DecidableEq K] (key : H → K) (items items' : List H) : Prop :=
  ∀ k, items'.filter (key · = k) = items.filter (key · = k)

/-- Whichever of the insertions at the start of an edit are made before it, it absorbs them. -/
def Settled (l : List α) (edits : List (Edit α)) : Prop :=
  ∀ e ∈ edits, e.start < e.stop → ∀ before, before <+: insertionsAt edits e.start →
    Absorbs l before e

section

variable {H K : Type} [DecidableEq K] {key : H → K} {items items' : List H}

theorem Relists.mem_iff (h : Relists key items items') {i : H} : i ∈ items' ↔ i ∈ items := by
  have hmem := congrArg (i ∈ ·) (h (key i))
  simpa using hmem

theorem Relists.perm (h : Relists key items items') : items'.Perm items := by
  classical
  refine List.perm_iff_count.mpr fun i => ?_
  have hcount := congrArg (List.count i) (h (key i))
  rwa [List.count_filter (by simp), List.count_filter (by simp)] at hcount

theorem Relists.trans {items'' : List H} (h : Relists key items items')
    (h' : Relists key items' items'') : Relists key items items'' :=
  fun k => (h' k).trans (h k)

theorem Relists.append {other other' : List H} (h : Relists key items items')
    (h' : Relists key other other') : Relists key (items ++ other) (items' ++ other') := by
  intro k
  rw [List.filter_append, List.filter_append, h, h']

/-- A relisting keeps apart what another key keeps apart in the same way. -/
theorem Relists.congr {K' : Type} [DecidableEq K'] {key' : H → K'} (h : Relists key items items')
    (hkey : ∀ i ∈ items, ∀ j ∈ items, key j = key i ↔ key' j = key' i) :
    Relists key' items items' := by
  intro k
  by_cases hk : ∃ i ∈ items, key' i = k
  · obtain ⟨i, hi, rfl⟩ := hk
    have hfilter {js : List H} (hjs : ∀ j ∈ js, j ∈ items) :
        js.filter (key' · = key' i) = js.filter (key · = key i) :=
      List.filter_congr fun j hj => decide_eq_decide.mpr (hkey i hi j (hjs j hj)).symm
    rw [hfilter fun j hj => h.mem_iff.mp hj, hfilter fun j hj => hj, h]
  · push Not at hk
    rw [List.filter_eq_nil_iff.mpr fun j hj => by simpa using hk j (h.mem_iff.mp hj),
      List.filter_eq_nil_iff.mpr fun j hj => by simpa using hk j hj]

/-- A relisting of the items of some keys. -/
theorem Relists.filter (h : Relists key items items') (q : K → Bool) :
    Relists key (items.filter fun j => q (key j)) (items'.filter fun j => q (key j)) := by
  intro k
  simp only [List.filter_filter, Bool.and_comm]
  rw [← List.filter_filter, ← List.filter_filter, h]

/-- Items may be listed after those of other keys. -/
theorem relists_filter_append (items : List H) (q : K → Bool) :
    Relists key items
      (items.filter (fun j => q (key j)) ++ items.filter (fun j => !q (key j))) := by
  intro k
  have hpart (r : K → Bool) : (items.filter fun j => r (key j)).filter (key · = k) =
      if r k then items.filter (key · = k) else [] := by
    rw [List.filter_filter]
    split
    · next hr =>
      refine List.filter_congr fun j _ => ?_
      by_cases hj : key j = k <;> simp [hj, hr]
    · next hr =>
      refine List.filter_eq_nil_iff.mpr fun j _ => ?_
      by_cases hj : key j = k <;> simp [hj, hr]
  rw [List.filter_append, hpart q, hpart fun k => !q k]
  cases q k <;> simp

/-- An item may be moved among items of another key. -/
theorem relists_move {first last before after : List H} {i : H} {k : K}
    (hkey : ∀ j ∈ first ++ last, key j = k) (heq : first ++ last = before ++ after)
    (hi : key i ≠ k) : Relists key (first ++ i :: last) (before ++ i :: after) := by
  intro k'
  have hfilter {b a : List H} (hba : first ++ last = b ++ a) :
      (b ++ i :: a).filter (key · = k') =
        if k' = k then first ++ last else [i].filter (key · = k') := by
    rw [hba, List.forall_mem_append] at hkey
    rw [List.filter_append]
    by_cases h : k' = k
    · subst h
      rw [List.filter_cons_of_neg (by simpa),
        List.filter_eq_self.mpr fun j hj => by simpa using hkey.1 j hj,
        List.filter_eq_self.mpr fun j hj => by simpa using hkey.2 j hj, if_pos rfl, hba]
    · rw [← List.singleton_append, List.filter_append, if_neg h,
        (List.filter_eq_nil_iff (l := b)).mpr fun j hj => by simp [hkey.1 j hj, Ne.symm h],
        (List.filter_eq_nil_iff (l := a)).mpr fun j hj => by simp [hkey.2 j hj, Ne.symm h],
        List.nil_append, List.append_nil]
  rw [hfilter rfl, hfilter heq]

variable {edit : H → Edit α} {l : List α}

theorem Apart.relisted (h : Apart l (items.map edit))
    (hitems : Relists (range ∘ edit) items items') : Apart l (items'.map edit) := by
  have hperm := hitems.perm.map edit
  refine ⟨fun e he => h.valid e (hperm.mem_iff.mp he), ?_⟩
  exact (hperm.pairwise_iff fun hab => hab.symm).mpr h.disjoint

theorem insertionsAt_map (items : List H) (p : ℕ) : insertionsAt (items.map edit) p =
    (items.filter ((range ∘ edit) · = (p, p))).map edit :=
  List.filter_map

/-- Edits made at once do not depend on the order of their different ranges. -/
theorem simultaneous_relisted (h : Apart l (items.map edit))
    (hitems : Relists (range ∘ edit) items items') :
    simultaneous l (items'.map edit) = simultaneous l (items.map edit) := by
  have hperm := hitems.perm.map edit
  have hleft (p : ℕ) : leftAt l (items'.map edit) p = leftAt l (items.map edit) p := by
    have hinsert : insertionsAt (items'.map edit) p = insertionsAt (items.map edit) p := by
      rw [insertionsAt_map, insertionsAt_map, hitems]
    have hreplace : replacementsAt (items'.map edit) p = replacementsAt (items.map edit) p := by
      have hreplaced : (replacementsAt (items'.map edit) p).Perm
          (replacementsAt (items.map edit) p) := hperm.filter _
      rcases hnone : replacementsAt (items.map edit) p with _ | ⟨e, es⟩
      · rw [hnone] at hreplaced
        exact hreplaced.eq_nil
      · have he : e ∈ replacementsAt (items.map edit) p := by simp [hnone]
        simp only [replacementsAt, List.mem_filter, decide_eq_true_eq] at he
        obtain ⟨before, after, hsplit⟩ := List.append_of_mem
          (List.mem_filter.mpr ⟨he.1, by simpa using he.2.1⟩ :
            e ∈ (items.map edit).filter (·.start = p))
        have hone := (h.leftAt_of_replacement hsplit he.2.2).2.1
        rw [hone] at hreplaced hnone
        rw [← hnone]
        exact List.perm_singleton.mp hreplaced
    rw [leftAt, leftAt, hinsert, hreplace, keptAt, keptAt]
    simp only [hperm.mem_iff]
  rw [simultaneous, simultaneous, funext hleft]

/-- Some of the insertions at the start of an edit may be listed before it, and the others after it.
-/
theorem relists_around (h : Apart l (items.map edit)) {i : H} (hi : i ∈ items)
    (hp : (edit i).start < (edit i).stop) {before after : List H}
    (hsplit : items.filter ((range ∘ edit) · = ((edit i).start, (edit i).start)) =
      before ++ after) :
    Relists (range ∘ edit) items (before ++ i :: after ++
      items.filter fun j => !decide ((edit j).start = (edit i).start)) := by
  obtain ⟨first, last, hfirst⟩ := List.append_of_mem (List.mem_filter.mpr ⟨hi, by simp⟩ :
    i ∈ items.filter fun j => decide ((edit j).start = (edit i).start))
  have hmap : (items.map edit).filter (·.start = (edit i).start) =
      first.map edit ++ edit i :: last.map edit := by
    rw [List.filter_map, ← List.map_cons, ← List.map_append, ← hfirst]
    rfl
  have hall := (h.insertions_around hmap hp).1
  rw [← List.map_append, List.forall_mem_map] at hall
  have hpart : Relists (range ∘ edit) items _ :=
    relists_filter_append items fun k => decide (k.1 = (edit i).start)
  refine hpart.trans (Relists.append ?_ fun _ => rfl)
  have hinsert : items.filter ((range ∘ edit) · = ((edit i).start, (edit i).start)) =
      first ++ last := by
    have hfilter : items.filter ((range ∘ edit) · = ((edit i).start, (edit i).start)) =
        (first ++ i :: last).filter ((range ∘ edit) · = ((edit i).start, (edit i).start)) := by
      rw [← hfirst, List.filter_filter]
      refine List.filter_congr fun j _ => ?_
      simp only [Function.comp_apply, range, Prod.mk.injEq, Bool.decide_and]
      rw [Bool.and_right_comm, Bool.and_self]
    rw [List.forall_mem_append] at hall
    rw [hfilter, List.filter_append, List.filter_cons_of_neg (by simp [range]; omega),
      List.filter_eq_self.mpr fun j hj => by simpa using hall.1 j hj,
      List.filter_eq_self.mpr fun j hj => by simpa using hall.2 j hj]
  change Relists _ (items.filter fun j => decide ((edit j).start = (edit i).start)) _
  rw [hfirst]
  refine relists_move (k := ((edit i).start, (edit i).start)) hall
    (hinsert.symm.trans hsplit) ?_
  simp only [Function.comp_apply, range, ne_eq, Prod.mk.injEq]
  omega

/-- **Edits come to the same one after the other as at once, in whatever order those of different
ranges are listed, exactly when** each edit absorbs the insertions at its start. -/
theorem relisted_eq_iff (h : Apart l (items.map edit)) :
    (∀ items', Relists (range ∘ edit) items items' →
        applyEdits l (items'.map edit) = simultaneous l (items.map edit)) ↔
      Settled l (items.map edit) := by
  constructor
  · intro hall e he hp first hfirst
    obtain ⟨i, hi, rfl⟩ := List.mem_map.mp he
    obtain ⟨last, hlast⟩ := hfirst
    rw [insertionsAt_map, eq_comm, List.map_eq_append_iff] at hlast
    obtain ⟨before, after, hsplit, rfl, rfl⟩ := hlast
    have hitems := relists_around h hi hp hsplit
    have happly := hall _ hitems
    rw [← simultaneous_relisted h hitems, (h.relisted hitems).applyEdits_eq_iff] at happly
    have hinsertions : ∀ j ∈ before ++ after, (edit j).start = (edit i).start := by
      intro j hj
      rw [← hsplit, List.mem_filter] at hj
      exact (Prod.mk.inj (of_decide_eq_true hj.2)).1
    rw [List.forall_mem_append] at hinsertions
    refine happly (edit i).start _ (edit i) (after.map edit) ?_ hp
    rw [List.filter_map, ← List.map_cons, ← List.map_append, List.filter_append]
    congr 1
    rw [List.filter_eq_self.mpr, List.filter_eq_nil_iff.mpr, List.append_nil]
    · intro j hj
      simpa using (List.mem_filter.mp hj).2
    · intro j hj
      rcases List.mem_append.mp hj with hj | hj
      · simpa using hinsertions.1 j hj
      rcases List.mem_cons.mp hj with rfl | hj
      · simp
      · simpa using hinsertions.2 j hj
  · intro hsettled items' hitems
    rw [← simultaneous_relisted h hitems, (h.relisted hitems).applyEdits_eq_iff]
    intro p before e after hsplit hp
    have hinsert := ((h.relisted hitems).leftAt_of_replacement hsplit hp).1
    obtain ⟨-, he, rfl⟩ := (h.relisted hitems).insertions_around hsplit hp
    refine hsettled e ((hitems.perm.map edit).mem_iff.mp he) hp before ⟨after, ?_⟩
    rw [← hinsert, insertionsAt_map, insertionsAt_map, hitems]

end

end Edit

end Lib
