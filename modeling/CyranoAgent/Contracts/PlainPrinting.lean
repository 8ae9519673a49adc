import CyranoAgent.Contracts.PlainJson
import CyranoAgent.Contracts.FixedPoint
import CyranoAgent.Lib.Dict

/-!
# Plain JSON text determines what it was printed from

A string of ASCII escapes ends at its quote, since every character is read back from its escape
(`readChar_escapeAscii`). So strings, numbers, lists and dictionaries of what is delimited are
delimited themselves (`delimited_list`, `delimited_object`), and a text made of them determines
its parts. With sorted keys a dictionary is determined up to the order of its entries
(`sortedObject_append_inj`).
-/

namespace CyranoAgent

namespace PlainJson

/-- A dictionary with printed values, its members in the order in which it has them. -/
def object (members : List (String × String)) : String :=
  "\x7b" ++ ", ".intercalate (members.map fun member => text member.1 ++ ": " ++ member.2) ++ "\x7d"

/-- A dictionary with printed values, `sort_keys=True`. -/
def sortedObject (members : List (String × String)) : String :=
  object (members.insertionSort fun a b => a.1 ≤ b.1)

/-! ### Strings -/

theorem hexDigit_digitChar {n : ℕ} (h : n < 16) : hexDigit (Nat.digitChar n) = some n := by
  have hall : ∀ n < 16, hexDigit (Nat.digitChar n) = some n := by decide
  exact hall n h

/-- Four digits are read back. -/
theorem readHex4_hex4 {n : ℕ} (h : n < 0x10000) (s : List Char) :
    readHex4 (hex4 n ++ s) = some (n, s) := by
  simp only [hex4, List.cons_append, List.nil_append, readHex4]
  rw [hexDigit_digitChar (Nat.mod_lt _ (by decide)), hexDigit_digitChar (Nat.mod_lt _ (by decide)),
    hexDigit_digitChar (Nat.mod_lt _ (by decide)), hexDigit_digitChar (Nat.mod_lt _ (by decide))]
  have hdigits : (((n / 4096 % 16) * 16 + n / 256 % 16) * 16 + n / 16 % 16) * 16 + n % 16 = n := by
    omega
  simp [hdigits]

/-- **A character is read back as it is written.** -/
theorem readChar_escapeAscii (c : Char) (s : List Char) :
    readChar (escapeAscii c ++ s) = some (c, s) := by
  rw [escapeAscii]
  split_ifs with hplain hbasic
  · exact readChar_escapeChar c s
  · -- one code unit
    rw [List.cons_append, List.cons_append, readChar, readUnicode, readHex4_hex4 hbasic]
    have hvalid : c.toNat.isValidChar := c.valid
    simp [hvalid]
  · -- two surrogates
    have hlt : c.toNat < 0x110000 := by
      have hvalid := c.valid
      rcases hvalid with h | h
      · exact lt_trans h (by decide)
      · exact h.2
    obtain ⟨n, hn⟩ : ∃ n, c.toNat = 0x10000 + n := ⟨c.toNat - 0x10000, by omega⟩
    have hhigh : ¬(0xd800 + n / 1024).isValidChar := by
      rw [Nat.isValidChar]
      omega
    rw [List.cons_append, List.cons_append, readChar, readUnicode, List.append_assoc, hn,
      Nat.add_sub_cancel_left, readHex4_hex4 (by omega)]
    simp only [List.cons_append, Option.bind_eq_bind, Option.bind_some, hhigh, if_false]
    rw [readHex4_hex4 (by omega)]
    have hcond : 0xd800 + n / 1024 < 0xdc00 ∧ 0xdc00 ≤ 0xdc00 + n % 1024 ∧
        0xdc00 + n % 1024 < 0xe000 := by omega
    have hvalue : 0x10000 + (0xd800 + n / 1024 - 0xd800) * 1024 + (0xdc00 + n % 1024 - 0xdc00) =
        c.toNat := by omega
    simp only [Option.bind_some, hcond, hvalue, Char.ofNat_toNat]
    simp

/-- No character is written with a quote in front. -/
theorem escapeAscii_append_ne (c : Char) (rest s : List Char) :
    escapeAscii c ++ rest ≠ '"' :: s := by
  rw [escapeAscii]
  split_ifs
  · exact escapeChar_append_ne c rest s
  · exact fun heq => absurd (List.cons.inj heq).1 (by decide)
  · exact fun heq => absurd (List.cons.inj heq).1 (by decide)

/-- A string ends at its quote. -/
theorem text_append_inj {a b : String} {s t : List Char}
    (h : (text a).toList ++ s = (text b).toList ++ t) : a = b ∧ s = t := by
  have hlists : ∀ l m : List Char,
      l.flatMap escapeAscii ++ '"' :: s = m.flatMap escapeAscii ++ '"' :: t → l = m ∧ s = t := by
    intro l
    induction l with
    | nil =>
      rintro (_ | ⟨d, m⟩) heq
      · exact ⟨rfl, (List.cons.inj heq).2⟩
      · rw [List.flatMap_cons, List.append_assoc] at heq
        exact absurd heq.symm (escapeAscii_append_ne d _ _)
    | cons c l ih =>
      rintro (_ | ⟨d, m⟩) heq
      · rw [List.flatMap_cons, List.append_assoc] at heq
        exact absurd heq (escapeAscii_append_ne c _ _)
      · rw [List.flatMap_cons, List.flatMap_cons, List.append_assoc, List.append_assoc] at heq
        have hread := congrArg readChar heq
        rw [readChar_escapeAscii, readChar_escapeAscii] at hread
        obtain ⟨rfl, hrest⟩ := Prod.mk.inj (Option.some.inj hread)
        obtain ⟨rfl, hst⟩ := ih m hrest
        exact ⟨rfl, hst⟩
  obtain ⟨hab, hst⟩ := hlists a.toList b.toList (by simpa [text] using h)
  exact ⟨String.toList_inj.mp hab, hst⟩

theorem delimited_text (a : String) : Delimited (fun a => (text a).toList) a :=
  fun _ _ _ _ _ h => text_append_inj h

/-! ### Lists and dictionaries -/

section

variable {α β : Type} {print : α → String} {print' : β → String}

/-- The text of a value starts neither like a blank nor like a closing bracket. -/
def Starts (s : List Char) : Prop :=
  ∃ c rest, s = c :: rest ∧ c ≠ ' ' ∧ c ≠ ']' ∧ c ≠ '\x7d'

theorem starts_text (a : String) : Starts (text a).toList :=
  ⟨'"', _, String.toList_ofList, by decide, by decide, by decide⟩

theorem starts_int (n : ℤ) : Starts n.repr.toList := by
  obtain ⟨c, rest, hplain, hleads⟩ := exists_plain (.int n)
  refine ⟨c, rest, hplain, ?_⟩
  obtain rfl | hdigit := hleads
  · exact ⟨by decide, by decide, by decide⟩
  · exact ⟨by rintro rfl; simp at hdigit, by rintro rfl; simp at hdigit,
      by rintro rfl; simp at hdigit⟩

/-- An item with the blank in front of it, unless it is the first. -/
def spaced (print : α → String) (item : Bool × α) : List Char :=
  if item.1 then ' ' :: (print item.2).toList else (print item.2).toList

/-- The items of a list, the first one marked. -/
def marked : List α → List (Bool × α)
  | [] => []
  | a :: rest => (false, a) :: rest.map fun b => (true, b)

theorem marked_injective {xs ys : List α} (h : marked xs = marked ys) : xs = ys := by
  have hsnd (xs : List α) : (marked xs).map Prod.snd = xs := by
    cases xs with
    | nil => rfl
    | cons a rest => simp [marked, Function.comp_def]
  rw [← hsnd xs, h, hsnd]

/-- The blank of a separator belongs to the item that follows it. -/
theorem intercalate_blank (x : List Char) (rest : List (List Char)) :
    List.intercalate [',', ' '] (x :: rest) =
      List.intercalate [','] (x :: rest.map fun y => ' ' :: y) := by
  induction rest generalizing x with
  | nil => rfl
  | cons y rest ih =>
    rw [List.intercalate_cons_cons, ih, List.map_cons, List.intercalate_cons_cons,
      List.intercalate_cons_cons_left]
    simp

theorem toList_intercalate_eq (items : List α) :
    (", ".intercalate (items.map print)).toList =
      List.intercalate [','] ((marked items).map (spaced print)) := by
  rw [String.toList_intercalate]
  cases items with
  | nil => rfl
  | cons a rest =>
    rw [List.map_cons, List.map_cons]
    refine (intercalate_blank _ _).trans ?_
    rw [marked, List.map_cons, List.map_map, List.map_map, List.map_map]
    rfl

/-- **A list of delimited items that start like values is delimited by its closing bracket.** -/
theorem intercalate_append_inj {close : Char} (hclose : close = ']' ∨ close = '\x7d')
    (hstarts : ∀ b, Starts (print b).toList) (xs ys : List α)
    (hxs : ∀ x ∈ xs, Delimited (fun a => (print a).toList) x) (s t : List Char)
    (h : (", ".intercalate (xs.map print)).toList ++ close :: s =
      (", ".intercalate (ys.map print)).toList ++ close :: t) : xs = ys ∧ s = t := by
  have hne {c : Char} (hc : c ≠ ']' ∧ c ≠ '\x7d') : c ≠ close := by
    rcases hclose with rfl | rfl
    · exact hc.1
    · exact hc.2
  have hhead (item : Bool × α) : ∃ c rest, spaced print item = c :: rest ∧ c ≠ close := by
    obtain ⟨first, a⟩ := item
    cases first with
    | true => exact ⟨' ', _, rfl, hne ⟨by decide, by decide⟩⟩
    | false =>
      obtain ⟨c, rest, hc, -, hbrackets⟩ := hstarts a
      exact ⟨c, rest, hc, hne hbrackets⟩
  have hdelimited : ∀ item ∈ marked xs, Delimited (spaced print) item := by
    rintro ⟨first, a⟩ hitem ⟨first', b⟩ s t hs ht heq
    have ha : a ∈ xs := by
      cases xs with
      | nil => cases hitem
      | cons x rest => simpa [marked, or_comm] using List.mem_map_of_mem (f := Prod.snd) hitem
    obtain ⟨c, rest, hc, hblank, -⟩ := hstarts a
    obtain ⟨c', rest', hc', hblank', -⟩ := hstarts b
    cases first <;> cases first'
    · obtain ⟨rfl, hst⟩ := hxs a ha b s t hs ht heq
      exact ⟨rfl, hst⟩
    · rw [spaced, spaced] at heq
      simp only [Bool.false_eq_true, if_false, if_true, hc] at heq
      exact absurd (List.cons.inj heq).1 hblank
    · rw [spaced, spaced] at heq
      simp only [Bool.false_eq_true, if_false, if_true, hc'] at heq
      exact absurd (List.cons.inj heq).1.symm hblank'
    · obtain ⟨rfl, hst⟩ := hxs a ha b s t hs ht (List.cons.inj heq).2
      exact ⟨rfl, hst⟩
  rw [toList_intercalate_eq, toList_intercalate_eq, ← separated_eq, ← separated_eq] at h
  obtain ⟨hmarked, hst⟩ := separated_inj hclose hhead _ _ hdelimited s t h
  exact ⟨marked_injective hmarked, hst⟩

/-- A list ends at its bracket. -/
theorem delimited_list (hstarts : ∀ b, Starts (print b).toList) (xs : List α)
    (hxs : ∀ x ∈ xs, Delimited (fun a => (print a).toList) x) :
    Delimited (fun xs => (list (xs.map print)).toList) xs := by
  intro ys s t _ _ h
  simp only [list, String.toList_append, List.append_assoc] at h
  exact intercalate_append_inj (.inl rfl) hstarts xs ys hxs s t (List.append_cancel_left h)

/-- The text of a member starts with the quote of its key. -/
theorem starts_member (x : String × α) : Starts (text x.1 ++ ": " ++ print x.2).toList := by
  obtain ⟨c, rest, hc, hstart⟩ := starts_text x.1
  refine ⟨c, rest ++ (": ".toList ++ (print x.2).toList), ?_, hstart⟩
  rw [String.toList_append, String.toList_append, hc, List.append_assoc, List.cons_append]

/-- A member ends where its value does. -/
theorem delimited_member {x : String × α} (hx : Delimited (fun a => (print a).toList) x.2) :
    Delimited (fun x : String × α => (text x.1 ++ ": " ++ print x.2).toList) x := by
  intro y s t hs ht heq
  simp only [String.toList_append, List.append_assoc] at heq
  obtain ⟨hkey, hrest⟩ := text_append_inj heq
  obtain ⟨hvalue, hst⟩ := hx y.2 s t hs ht (List.append_cancel_left hrest)
  exact ⟨Prod.ext hkey hvalue, hst⟩

/-- A dictionary ends at its bracket. -/
theorem delimited_object (xs : List (String × α))
    (hxs : ∀ x ∈ xs, Delimited (fun a => (print a).toList) x.2) :
    Delimited (fun xs => (object (xs.map fun x => (x.1, print x.2))).toList) xs := by
  intro ys s t _ _ h
  simp only [object, List.map_map, String.toList_append, List.append_assoc] at h
  exact intercalate_append_inj (.inr rfl) starts_member xs ys
    (fun x hx => delimited_member (hxs x hx)) s t (List.append_cancel_left h)

/-- A list of two ends at its bracket. -/
theorem delimited_pair (p : α × β) (hfirst : Delimited (fun a => (print a).toList) p.1)
    (hsecond : Delimited (fun b => (print' b).toList) p.2) :
    Delimited (fun p => (list [print p.1, print' p.2]).toList) p := by
  intro q s t _ _ h
  have hlist (p : α × β) : (list [print p.1, print' p.2]).toList =
      '[' :: ((print p.1).toList ++ ',' :: ' ' :: ((print' p.2).toList ++ [']'])) := by
    rw [list, String.toList_append, String.toList_append, String.toList_intercalate]
    simp
  simp only [hlist, List.cons_append, List.append_assoc, List.nil_append] at h
  obtain ⟨hone, hrest⟩ := hfirst q.1 _ _ ⟨',', _, rfl, .inl rfl⟩ ⟨',', _, rfl, .inl rfl⟩
    (List.cons.inj h).2
  obtain ⟨htwo, hst⟩ := hsecond q.2 _ _ ⟨']', s, rfl, .inr (.inl rfl)⟩
    ⟨']', t, rfl, .inr (.inl rfl)⟩ (List.cons.inj (List.cons.inj hrest).2).2
  exact ⟨Prod.ext hone htwo, (List.cons.inj hst).2⟩

theorem sortedObject_eq (d : Lib.Dict String α) :
    sortedObject (d.entries.map fun x => (x.1, print x.2)) =
      object ((d.entries.insertionSort fun a b => a.1 ≤ b.1).map fun x => (x.1, print x.2)) := by
  rw [sortedObject, Json.insertionSort_map_values]

/-- **A dictionary printed with sorted keys is determined up to the order of its entries.** -/
theorem sortedObject_append_inj (hprint : ∀ a, Delimited (fun a => (print a).toList) a)
    {d d' : Lib.Dict String α} {s t : List Char} (hs : Ends s) (ht : Ends t)
    (h : (sortedObject (d.entries.map fun x => (x.1, print x.2))).toList ++ s =
      (sortedObject (d'.entries.map fun x => (x.1, print x.2))).toList ++ t) :
    (∀ key, d.get? key = d'.get? key) ∧ s = t := by
  rw [sortedObject_eq, sortedObject_eq] at h
  obtain ⟨hsorted, hst⟩ := delimited_object _ (fun x _ => hprint x.2) _ s t hs ht h
  exact ⟨Lib.Dict.perm_iff.mp ((Json.insertionSort_eq_iff d.nodup).mp hsorted), hst⟩

theorem sortedObject_congr {d d' : Lib.Dict String α} (h : ∀ key, d.get? key = d'.get? key) :
    sortedObject (d.entries.map fun x => (x.1, print x.2)) =
      sortedObject (d'.entries.map fun x => (x.1, print x.2)) := by
  rw [sortedObject_eq, sortedObject_eq,
    (Json.insertionSort_eq_iff d.nodup).mpr (Lib.Dict.perm_iff.mpr h)]

end

end PlainJson

end CyranoAgent
