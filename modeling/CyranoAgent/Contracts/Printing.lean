import CyranoAgent.Contracts.Canonical

/-!
# Canonical text determines its value

Printing with sorted keys is printing the value whose members are sorted (`dumps_eq_plain`), and
what is printed determines the value (`plain_inj`): strings end at their quote, numbers where no
digit follows, lists at their bracket. So documents of one digest have the same canonical text
(`SameText`), and what that says of them is found by going through their fields.
-/

namespace CyranoAgent

/-! ### Separated lists -/

section

variable {α : Type}

/-- Nothing that starts like this continues a value. -/
def Ends (s : List Char) : Prop := ∃ c rest, s = c :: rest ∧ (c = ',' ∨ c = ']' ∨ c = '}')

/-- Before anything that does not continue it, the text of `a` determines it. -/
def Delimited (text : α → List Char) (a : α) : Prop :=
  ∀ b s t, Ends s → Ends t → text a ++ s = text b ++ t → a = b ∧ s = t

/-- The text behind an opening bracket. -/
def separated (close : Char) : List (List Char) → List Char → List Char
  | [], s => close :: s
  | [x], s => x ++ close :: s
  | x :: y :: rest, s => x ++ ',' :: separated close (y :: rest) s

theorem separated_eq (close : Char) (texts : List (List Char)) (s : List Char) :
    separated close texts s = List.intercalate [','] texts ++ close :: s := by
  induction texts with
  | nil => simp [separated, List.intercalate]
  | cons x rest ih =>
    cases rest with
    | nil => simp [separated, List.intercalate]
    | cons y rest =>
      rw [separated, ih]
      simp [List.intercalate]

/-- What follows an item starts with a comma or with the closing bracket. -/
theorem separated_cons (close : Char) (x : List Char) (rest : List (List Char)) (s : List Char) :
    separated close (x :: rest) s =
      x ++ if rest = [] then close :: s else ',' :: separated close rest s := by
  cases rest <;> simp [separated]

/-- **A separated list determines its items**, if each item does so itself and none starts like the
closing bracket. -/
theorem separated_inj {text : α → List Char} {close : Char} (hclose : close = ']' ∨ close = '}')
    (hhead : ∀ b, ∃ c rest, text b = c :: rest ∧ c ≠ close) (xs ys : List α)
    (hxs : ∀ x ∈ xs, Delimited text x) (s t : List Char)
    (h : separated close (xs.map text) s = separated close (ys.map text) t) :
    xs = ys ∧ s = t := by
  have hstart (b : α) (rest : List (List Char)) (s t : List Char) :
      close :: s ≠ separated close (text b :: rest) t := by
    obtain ⟨c, tail, htext, hne⟩ := hhead b
    rw [separated_cons, htext]
    exact fun heq => hne (List.cons.inj heq).1.symm
  have hends (rest : List (List Char)) (s : List Char) :
      Ends (if rest = [] then close :: s else ',' :: separated close rest s) := by
    split
    · exact ⟨close, s, rfl, .inr hclose⟩
    · exact ⟨',', _, rfl, .inl rfl⟩
  induction xs generalizing ys with
  | nil =>
    cases ys with
    | nil => exact ⟨rfl, (List.cons.inj h).2⟩
    | cons y ys => exact absurd h (hstart y _ s t)
  | cons x xs ih =>
    cases ys with
    | nil => exact absurd h.symm (hstart x _ t s)
    | cons y ys =>
      rw [List.forall_mem_cons] at hxs
      rw [List.map_cons, List.map_cons, separated_cons, separated_cons] at h
      obtain ⟨rfl, hrest⟩ := hxs.1 y _ _ (hends _ s) (hends _ t) h
      have hcomma : close ≠ ',' := by rcases hclose with rfl | rfl <;> decide
      cases xs with
      | nil =>
        cases ys with
        | nil => exact ⟨rfl, by simpa using hrest⟩
        | cons y' ys => exact absurd (List.cons.inj (by simpa using hrest)).1 hcomma
      | cons x' xs =>
        cases ys with
        | nil => exact absurd (List.cons.inj (by simpa using hrest)).1.symm hcomma
        | cons y' ys =>
          obtain ⟨hlists, hst⟩ := ih (y' :: ys) hxs.2 (by simpa using hrest)
          exact ⟨by rw [hlists], hst⟩

end

/-! ### Numbers and strings -/

theorem exists_digits (n : ℕ) :
    ∃ c rest, Nat.toDigits 10 n = c :: rest ∧ c.isDigit = true := by
  obtain ⟨c, rest, hdigits⟩ := List.exists_cons_of_ne_nil (Nat.toDigits_ne_nil (n := n) (b := 10))
  have hmem : c ∈ Nat.toDigits 10 n := hdigits ▸ List.mem_cons_self
  exact ⟨c, rest, hdigits, Nat.isDigit_of_mem_toDigits (by decide) (by decide) hmem⟩

/-- Numbers end where no digit follows. -/
theorem digits_append_inj {m n : ℕ} {s t : List Char} (hs : ∀ c ∈ s.head?, c.isDigit = false)
    (ht : ∀ c ∈ t.head?, c.isDigit = false)
    (h : Nat.toDigits 10 m ++ s = Nat.toDigits 10 n ++ t) : m = n ∧ s = t := by
  have htake (n : ℕ) (s : List Char) (hs : ∀ c ∈ s.head?, c.isDigit = false) :
      (Nat.toDigits 10 n ++ s).takeWhile Char.isDigit = Nat.toDigits 10 n := by
    have hdigits : ∀ c ∈ Nat.toDigits 10 n, c.isDigit = true := fun c hc =>
      Nat.isDigit_of_mem_toDigits (by decide) (by decide) hc
    rw [List.takeWhile_append_of_pos hdigits]
    cases s with
    | nil => simp
    | cons c s => simp [hs c rfl]
  have hdigits : Nat.toDigits 10 m = Nat.toDigits 10 n := by
    rw [← htake m s hs, ← htake n t ht, h]
  refine ⟨?_, by rwa [hdigits, List.append_cancel_left_eq] at h⟩
  rw [← Nat.ofDigitChars_ten_toDigits (n := m), hdigits, Nat.ofDigitChars_ten_toDigits]

theorem Ends.head? {s : List Char} (h : Ends s) : ∀ c ∈ s.head?, c.isDigit = false := by
  obtain ⟨c, rest, rfl, rfl | rfl | rfl⟩ := h <;> simp

/-- The characters that a JSON string cannot hold as they are, numbered. -/
def specialChar (n : ℕ) : Char :=
  if n < 32 then Char.ofNat n else if n = 32 then '"' else '\\'

/-- A character that a JSON string cannot hold as it is. -/
def Special (c : Char) : Prop := ∃ n < 34, c = specialChar n

theorem special_quote : Special '"' := ⟨32, by decide, rfl⟩

theorem special_backslash : Special '\\' := ⟨33, by decide, rfl⟩

theorem escapeChar_of_not_special {c : Char} (h : ¬Special c) : escapeChar c = [c] := by
  have hquote : c ≠ '"' := fun heq => h (heq ▸ special_quote)
  have hbackslash : c ≠ '\\' := fun heq => h (heq ▸ special_backslash)
  have hcontrol : ¬c.toNat < 32 := fun hlt => h <| by
    refine ⟨c.toNat, by omega, ?_⟩
    rw [specialChar, if_pos hlt, Char.ofNat_toNat]
  have hne {d : Char} (hd : d.toNat < 32) : c ≠ d := fun heq => hcontrol (heq ▸ hd)
  rw [escapeChar, if_neg hquote, if_neg hbackslash, if_neg (hne (by decide)),
    if_neg (hne (by decide)), if_neg (hne (by decide)), if_neg (by omega), if_neg (by omega),
    if_neg hcontrol]

/-- An escape starts with a backslash. -/
theorem exists_escapeChar_of_special {c : Char} (h : Special c) :
    ∃ rest, escapeChar c = '\\' :: rest := by
  obtain ⟨n, hn, rfl⟩ := h
  have hall : ∀ n < 34, (escapeChar (specialChar n)).head? = some '\\' := by decide
  exact List.head?_eq_some_iff.mp (hall n hn)

/-- No escape continues another. -/
theorem eq_of_prefix_escapeChar {c d : Char} (hc : Special c) (hd : Special d)
    (h : escapeChar c <+: escapeChar d) : c = d := by
  obtain ⟨m, hm, rfl⟩ := hc
  obtain ⟨n, hn, rfl⟩ := hd
  have hall : ∀ m < 34, ∀ n < 34,
      escapeChar (specialChar m) <+: escapeChar (specialChar n) → m = n := by decide
  rw [hall m hm n hn h]

/-- An escape ends where it ends. -/
theorem escapeChar_append_inj {c d : Char} {s t : List Char}
    (h : escapeChar c ++ s = escapeChar d ++ t) : c = d ∧ s = t := by
  have hbackslash {c : Char} (hc : ¬Special c) : c ≠ '\\' := fun heq =>
    hc (heq ▸ special_backslash)
  by_cases hc : Special c <;> by_cases hd : Special d
  · have hcd : c = d := by
      rcases List.prefix_or_prefix_of_prefix (List.prefix_append _ s) (h ▸ List.prefix_append _ t)
        with hprefix | hprefix
      · exact eq_of_prefix_escapeChar hc hd hprefix
      · exact (eq_of_prefix_escapeChar hd hc hprefix).symm
    subst hcd
    exact ⟨rfl, List.append_cancel_left h⟩
  · obtain ⟨rest, hrest⟩ := exists_escapeChar_of_special hc
    rw [hrest, escapeChar_of_not_special hd] at h
    exact absurd (List.cons.inj h).1.symm (hbackslash hd)
  · obtain ⟨rest, hrest⟩ := exists_escapeChar_of_special hd
    rw [hrest, escapeChar_of_not_special hc] at h
    exact absurd (List.cons.inj h).1 (hbackslash hc)
  · rw [escapeChar_of_not_special hc, escapeChar_of_not_special hd] at h
    exact List.cons.inj h

/-- No character is written with a quote in front. -/
theorem escapeChar_append_ne (c : Char) (rest s : List Char) : escapeChar c ++ rest ≠ '"' :: s := by
  by_cases hc : Special c
  · obtain ⟨tail, htail⟩ := exists_escapeChar_of_special hc
    rw [htail]
    exact fun heq => absurd (List.cons.inj heq).1 (by decide)
  · rw [escapeChar_of_not_special hc]
    exact fun heq => hc ((List.cons.inj heq).1 ▸ special_quote)

/-- A string ends at its quote. -/
theorem quote_append_inj {a b : String} {s t : List Char} (h : quote a ++ s = quote b ++ t) :
    a = b ∧ s = t := by
  have hlists : ∀ l m : List Char,
      l.flatMap escapeChar ++ '"' :: s = m.flatMap escapeChar ++ '"' :: t → l = m ∧ s = t := by
    intro l
    induction l with
    | nil =>
      rintro (_ | ⟨d, m⟩) heq
      · exact ⟨rfl, (List.cons.inj heq).2⟩
      · rw [List.flatMap_cons, List.append_assoc] at heq
        exact absurd heq.symm (escapeChar_append_ne d _ _)
    | cons c l ih =>
      rintro (_ | ⟨d, m⟩) heq
      · rw [List.flatMap_cons, List.append_assoc] at heq
        exact absurd heq (escapeChar_append_ne c _ _)
      · rw [List.flatMap_cons, List.flatMap_cons, List.append_assoc, List.append_assoc] at heq
        obtain ⟨rfl, hrest⟩ := escapeChar_append_inj heq
        obtain ⟨rfl, hst⟩ := ih m hrest
        exact ⟨rfl, hst⟩
  obtain ⟨hab, hst⟩ := hlists a.toList b.toList (by simpa [quote] using h)
  exact ⟨String.toList_inj.mp hab, hst⟩

/-! ### Values -/

mutual

/-- The text of a value, its members in the order in which it has them. -/
def plain : Json → List Char
  | .arr items => '[' :: separated ']' (plainItems items) []
  | .obj members => '{' :: separated '}' ((plainMembers members).map renderMember) []
  | .null => "null".toList
  | .bool true => "true".toList
  | .bool false => "false".toList
  | .int n => n.repr.toList
  | .str s => quote s

/-- The texts of the items of an array. -/
def plainItems : List Json → List (List Char)
  | [] => []
  | item :: items => plain item :: plainItems items

/-- The members of an object with the texts of their values. -/
def plainMembers : List (String × Json) → List (String × List Char)
  | [] => []
  | (key, value) :: members => (key, plain value) :: plainMembers members

end

mutual

/-- The value with the members of every object in the order of their keys. -/
def Json.sorted : Json → Json
  | .arr items => .arr (sortedItems items)
  | .obj members => .obj ((sortedMembers members).insertionSort fun a b => a.1 ≤ b.1)
  | v => v

/-- The items of an array, sorted within. -/
def Json.sortedItems : List Json → List Json
  | [] => []
  | item :: items => sorted item :: sortedItems items

/-- The members of an object, sorted within. -/
def Json.sortedMembers : List (String × Json) → List (String × Json)
  | [] => []
  | (key, value) :: members => (key, sorted value) :: sortedMembers members

end

theorem plainItems_eq_map (items : List Json) : plainItems items = items.map plain := by
  induction items with
  | nil => rfl
  | cons item items ih => rw [plainItems, ih, List.map_cons]

theorem plainMembers_eq_map (members : List (String × Json)) :
    plainMembers members = members.map fun member => (member.1, plain member.2) := by
  induction members with
  | nil => rfl
  | cons member members ih => rw [plainMembers, ih, List.map_cons]

theorem Json.sortedItems_eq_map (items : List Json) : sortedItems items = items.map sorted := by
  induction items with
  | nil => rfl
  | cons item items ih => rw [sortedItems, ih, List.map_cons]

theorem Json.sortedMembers_eq_map (members : List (String × Json)) :
    sortedMembers members = members.map fun member => (member.1, sorted member.2) := by
  induction members with
  | nil => rfl
  | cons member members ih => rw [sortedMembers, ih, List.map_cons]

mutual

/-- **Printing with sorted keys is printing the sorted value.** -/
theorem dumps_eq_plain : (v : Json) → dumps v = plain v.sorted
  | .null | .int _ | .str _ => rfl
  | .bool true | .bool false => rfl
  | .arr items => by
    rw [dumps, Json.sorted, plain, separated_eq, dumpsItems_eq_map, plainItems_eq_map,
      Json.sortedItems_eq_map, List.map_map, List.map_congr_left (dumps_items items)]
  | .obj members => by
    have hsort : sortMembers (dumpsMembers members) =
        plainMembers ((Json.sortedMembers members).insertionSort fun a b => a.1 ≤ b.1) := by
      have htexts : members.map (fun member => (member.1, dumps member.2)) =
          members.map fun member => (member.1, plain member.2.sorted) :=
        List.map_congr_left fun member hmember => by rw [dumps_members members member hmember]
      -- the sort looks at the keys only
      have hkeys := List.map_insertionSort (fun a b : String × Json => a.1 ≤ b.1)
        (fun a b : String × List Char => a.1 ≤ b.1) (fun member => (member.1, plain member.2))
        (Json.sortedMembers members) fun _ _ _ _ => Iff.rfl
      rw [plainMembers_eq_map, hkeys, Json.sortedMembers_eq_map, List.map_map, sortMembers,
        dumpsMembers_eq_map, htexts]
      rfl
    rw [dumps, Json.sorted, plain, separated_eq, hsort]

theorem dumps_items : (items : List Json) → ∀ v ∈ items, dumps v = (plain ∘ Json.sorted) v
  | [] => by simp
  | item :: items => List.forall_mem_cons.mpr ⟨dumps_eq_plain item, dumps_items items⟩

theorem dumps_members : (members : List (String × Json)) →
    ∀ member ∈ members, dumps member.2 = plain member.2.sorted
  | [] => by simp
  | (_, value) :: members =>
    List.forall_mem_cons.mpr ⟨dumps_eq_plain value, dumps_members members⟩

end

/-- The first character of a value, which tells what it is. -/
def Json.Leads : Json → Char → Prop
  | .null, c => c = 'n'
  | .bool true, c => c = 't'
  | .bool false, c => c = 'f'
  | .int _, c => c = '-' ∨ c.isDigit = true
  | .str _, c => c = '"'
  | .arr _, c => c = '['
  | .obj _, c => c = '{'

theorem exists_plain : (v : Json) → ∃ c rest, plain v = c :: rest ∧ v.Leads c
  | .null => ⟨'n', _, rfl, rfl⟩
  | .bool true => ⟨'t', _, rfl, rfl⟩
  | .bool false => ⟨'f', _, rfl, rfl⟩
  | .str _ => ⟨'"', _, rfl, rfl⟩
  | .arr _ => ⟨'[', _, rfl, rfl⟩
  | .obj _ => ⟨'{', _, rfl, rfl⟩
  | .int n => by
    rw [plain, Int.repr_eq_if]
    split
    · rw [Nat.toList_repr]
      obtain ⟨c, rest, hdigits, hdigit⟩ := exists_digits n.toNat
      exact ⟨c, rest, hdigits, .inr hdigit⟩
    · exact ⟨'-', _, by rw [String.toList_append]; rfl, .inl rfl⟩

/-- A value does not start like a closing bracket. -/
theorem exists_plain_ne (v : Json) {close : Char} (hclose : close = ']' ∨ close = '}') :
    ∃ c rest, plain v = c :: rest ∧ c ≠ close := by
  obtain ⟨c, rest, hplain, hleads⟩ := exists_plain v
  refine ⟨c, rest, hplain, ?_⟩
  rintro rfl
  have hno : ¬v.Leads ']' ∧ ¬v.Leads '}' := by
    cases v with
    | bool b => cases b <;> exact ⟨by simp [Json.Leads], by simp [Json.Leads]⟩
    | _ => exact ⟨by simp [Json.Leads], by simp [Json.Leads]⟩
  rcases hclose with rfl | rfl
  · exact hno.1 hleads
  · exact hno.2 hleads

/-- Numbers end before what ends a value. -/
theorem delimited_int (n : ℤ) : Delimited (fun n : ℤ => n.repr.toList) n := by
  intro m s t hs ht h
  dsimp only at h
  rw [Int.repr_eq_if, Int.repr_eq_if] at h
  have hdigit (k : ℕ) (s t : List Char) : '-' :: s ≠ Nat.toDigits 10 k ++ t := by
    obtain ⟨c, rest, hdigits, hc⟩ := exists_digits k
    rw [hdigits]
    rintro heq
    obtain rfl := (List.cons.inj heq).1
    exact absurd hc (by decide)
  split_ifs at h with hn hm hm
  · rw [Nat.toList_repr, Nat.toList_repr] at h
    obtain ⟨hnm, hst⟩ := digits_append_inj hs.head? ht.head? h
    exact ⟨by omega, hst⟩
  · rw [Nat.toList_repr, String.toList_append] at h
    exact absurd h.symm (hdigit _ _ _)
  · rw [Nat.toList_repr, String.toList_append] at h
    exact absurd h (hdigit _ _ _)
  · rw [String.toList_append, String.toList_append, Nat.toList_repr, Nat.toList_repr] at h
    obtain ⟨hnm, hst⟩ := digits_append_inj hs.head? ht.head? (List.cons.inj h).2
    exact ⟨by omega, hst⟩

/-- The constructors of values, numbered. -/
def Json.shape : Json → ℕ
  | .null => 0
  | .bool true => 1
  | .bool false => 2
  | .int _ => 3
  | .str _ => 4
  | .arr _ => 5
  | .obj _ => 6

/-- Values that start alike are alike. -/
theorem shape_eq_of_append {v w : Json} {s t : List Char} (h : plain v ++ s = plain w ++ t) :
    v.shape = w.shape := by
  obtain ⟨c, rest, hv, hleads⟩ := exists_plain v
  obtain ⟨d, rest', hw, hleads'⟩ := exists_plain w
  rw [hv, hw] at h
  obtain rfl := (List.cons.inj h).1
  rcases v with _ | (_ | _) | _ | _ | _ | _ <;> rcases w with _ | (_ | _) | _ | _ | _ | _ <;>
    simp only [Json.Leads] at hleads hleads' <;> first | rfl | (subst hleads; simp at hleads') |
      (subst hleads'; simp at hleads)

/-- A member ends where its value does. -/
theorem delimited_renderMember {member : String × Json} (h : Delimited plain member.2) :
    Delimited (fun member : String × Json => renderMember (member.1, plain member.2)) member := by
  intro member' s t hs ht heq
  simp only [renderMember, List.append_assoc, List.cons_append] at heq
  obtain ⟨hkey, hrest⟩ := quote_append_inj heq
  obtain ⟨hvalue, hst⟩ := h member'.2 s t hs ht (List.cons.inj hrest).2
  exact ⟨Prod.ext hkey hvalue, hst⟩

mutual

/-- **What is printed determines the value**, before anything that does not continue it. -/
theorem delimited_plain : (v : Json) → Delimited plain v
  | .null => fun w s t _ _ h => by
    have hshape := shape_eq_of_append h
    cases w with
    | null => exact ⟨rfl, List.append_cancel_left h⟩
    | bool b => cases b <;> cases hshape
    | _ => cases hshape
  | .bool true => fun w s t _ _ h => by
    have hshape := shape_eq_of_append h
    rcases w with _ | (_ | _) | _ | _ | _ | _ <;> try cases hshape
    exact ⟨rfl, List.append_cancel_left h⟩
  | .bool false => fun w s t _ _ h => by
    have hshape := shape_eq_of_append h
    rcases w with _ | (_ | _) | _ | _ | _ | _ <;> try cases hshape
    exact ⟨rfl, List.append_cancel_left h⟩
  | .int n => fun w s t hs ht h => by
    have hshape := shape_eq_of_append h
    cases w with
    | int m =>
      obtain ⟨hnm, hst⟩ := delimited_int n m s t hs ht h
      exact ⟨congrArg Json.int hnm, hst⟩
    | bool b => cases b <;> cases hshape
    | _ => cases hshape
  | .str a => fun w s t _ _ h => by
    have hshape := shape_eq_of_append h
    cases w with
    | str b =>
      obtain ⟨hab, hst⟩ := quote_append_inj h
      exact ⟨congrArg Json.str hab, hst⟩
    | bool b => cases b <;> cases hshape
    | _ => cases hshape
  | .arr items => fun w s t _ _ h => by
    have hshape := shape_eq_of_append h
    cases w with
    | arr items' =>
      simp only [plain, plainItems_eq_map, separated_eq, List.cons_append, List.append_assoc,
        List.nil_append, List.cons.injEq, true_and] at h
      rw [← separated_eq, ← separated_eq] at h
      obtain ⟨rfl, hst⟩ := separated_inj (.inl rfl) (fun v => exists_plain_ne v (.inl rfl)) items
        items' (delimited_items items) s t h
      exact ⟨rfl, hst⟩
    | bool b => cases b <;> cases hshape
    | _ => cases hshape
  | .obj members => fun w s t _ _ h => by
    have hshape := shape_eq_of_append h
    cases w with
    | obj members' =>
      simp only [plain, plainMembers_eq_map, List.map_map, separated_eq, List.cons_append,
        List.append_assoc, List.nil_append, List.cons.injEq, true_and] at h
      rw [← separated_eq, ← separated_eq] at h
      obtain ⟨rfl, hst⟩ := separated_inj (.inr rfl) (fun member => ⟨'"', _, rfl, by decide⟩) members
        members' (fun member hmember => delimited_renderMember
          (delimited_members members member hmember)) s t h
      exact ⟨rfl, hst⟩
    | bool b => cases b <;> cases hshape
    | _ => cases hshape

theorem delimited_items : (items : List Json) → ∀ v ∈ items, Delimited plain v
  | [] => by simp
  | item :: items => List.forall_mem_cons.mpr ⟨delimited_plain item, delimited_items items⟩

theorem delimited_members : (members : List (String × Json)) →
    ∀ member ∈ members, Delimited plain member.2
  | [] => by simp
  | (_, value) :: members =>
    List.forall_mem_cons.mpr ⟨delimited_plain value, delimited_members members⟩

end

/-- **Values of the same text are the same up to the order of members.** -/
theorem dumps_eq_iff {v w : Json} : dumps v = dumps w ↔ v.sorted = w.sorted := by
  rw [dumps_eq_plain, dumps_eq_plain]
  refine ⟨fun h => ?_, fun h => by rw [h]⟩
  have hends : Ends [','] := ⟨',', [], rfl, .inl rfl⟩
  exact (delimited_plain v.sorted w.sorted [','] [','] hends hends (by rw [h])).1

/-! ### Documents of one digest -/

section

variable {P : Primitives}

/-- The documents have a canonical text, and it is the same. -/
def SameText (P : Primitives) (v w : PyValue) : Prop :=
  ∃ j k, normalize P v = .ok j ∧ normalize P w = .ok k ∧ j.sorted = k.sorted

/-- **Documents have one digest exactly when they have one canonical text.** -/
theorem digest_eq_iff {v w : PyValue} (hP : CollisionFree P {v, w}) {d d' : String}
    (hv : digest P v = .ok d) (hw : digest P w = .ok d') : d = d' ↔ SameText P v w := by
  constructor
  · rintro rfl
    obtain ⟨data, hdata, hdata'⟩ := canonicalBytes_of_digest hP (.inl rfl) (.inr rfl) hv hw
    obtain ⟨j, k, hj, hk, hdumps⟩ := dumps_eq_of_canonicalBytes hdata hdata'
    exact ⟨j, k, hj, hk, dumps_eq_iff.mp hdumps⟩
  · rintro ⟨j, k, hj, hk, hsorted⟩
    simp only [digest, taggedBytes, canonicalBytes, hj, hk, Except.map, Except.ok.injEq] at hv hw
    rw [← hv, ← hw, dumps_eq_iff.mpr hsorted]

/-! ### Fields -/

@[simp] theorem sameText_none : SameText P .none .none := ⟨.null, .null, by simp [normalize]⟩

@[simp] theorem sameText_str {a b : String} :
    SameText P (.str a) (.str b) ↔ normalizeText P a = normalizeText P b := by
  simp [SameText, Json.sorted]

@[simp] theorem sameText_int {a b : ℤ} :
    SameText P (.int a) (.int b) ↔ a = b ∧ a.natAbs ≤ 2 ^ 53 - 1 := by
  simp only [SameText, normalize_int_eq_ok]
  constructor
  · rintro ⟨_, _, ⟨hrange, rfl⟩, ⟨-, rfl⟩, hsorted⟩
    simp only [Json.sorted, Json.int.injEq] at hsorted
    exact ⟨hsorted, hrange⟩
  · rintro ⟨rfl, hrange⟩
    exact ⟨_, _, ⟨hrange, rfl⟩, ⟨hrange, rfl⟩, rfl⟩

theorem not_sameText_none_str {a : String} : ¬SameText P .none (.str a) := by
  simp [SameText, normalize, Json.sorted]

theorem not_sameText_none_int {a : ℤ} : ¬SameText P .none (.int a) := by
  rintro ⟨j, k, hj, hk, hsorted⟩
  obtain ⟨-, rfl⟩ := normalize_int_eq_ok.mp hk
  rw [normalize] at hj
  cases hj
  simp [Json.sorted] at hsorted

theorem SameText.symm {v w : PyValue} (h : SameText P v w) : SameText P w v := by
  obtain ⟨j, k, hj, hk, hsorted⟩ := h
  exact ⟨k, j, hk, hj, hsorted.symm⟩

theorem normalizeItems_eq_ok {items : List PyValue} {vs : List Json} :
    normalizeItems P items = .ok vs ↔
      List.Forall₂ (fun item v => normalize P item = .ok v) items vs := by
  induction items generalizing vs with
  | nil => simp [normalizeItems, eq_comm]
  | cons item items ih =>
    rw [normalizeItems, List.forall₂_cons_left_iff]
    rcases hitem : normalize P item with e | v
    · simp
    · rcases hitems : normalizeItems P items with e | rest
      · simp only [Except.map, reduceCtorEq, Except.ok.injEq, false_iff]
        rintro ⟨_, rest, rfl, hrest, -⟩
        rw [ih.mpr hrest] at hitems
        cases hitems
      · simp only [Except.map, Except.ok.injEq]
        constructor
        · rintro rfl
          exact ⟨v, rest, rfl, ih.mp hitems, rfl⟩
        · rintro ⟨_, rest', rfl, hrest, rfl⟩
          rw [Except.ok.inj (hitems.symm.trans (ih.mpr hrest))]

/-- Lists that two relations take to lists with the same images are related item by item. -/
theorem exists_map_eq_map_iff {α β γ δ : Type} (R : α → γ → Prop) (R' : β → γ → Prop) (f : γ → δ)
    (xs : List α) (ys : List β) :
    (∃ vs ws, List.Forall₂ R xs vs ∧ List.Forall₂ R' ys ws ∧ vs.map f = ws.map f) ↔
      List.Forall₂ (fun x y => ∃ v w, R x v ∧ R' y w ∧ f v = f w) xs ys := by
  induction xs generalizing ys with
  | nil =>
    cases ys with
    | nil => exact iff_of_true ⟨[], [], .nil, .nil, rfl⟩ .nil
    | cons y ys =>
      refine iff_of_false ?_ (by simp)
      rintro ⟨_, _, hvs, hws, heq⟩
      cases hvs
      cases hws
      simp at heq
  | cons x xs ih =>
    cases ys with
    | nil =>
      refine iff_of_false ?_ (by simp)
      rintro ⟨_, _, hvs, hws, heq⟩
      cases hvs
      cases hws
      simp at heq
    | cons y ys =>
      rw [List.forall₂_cons, ← ih]
      constructor
      · rintro ⟨_, _, hvs, hws, heq⟩
        cases hvs with
        | cons hv hvs =>
          cases hws with
          | cons hw hws =>
            obtain ⟨hhead, htail⟩ := List.cons.inj heq
            exact ⟨⟨_, _, hv, hw, hhead⟩, _, _, hvs, hws, htail⟩
      · rintro ⟨⟨v, w, hv, hw, hhead⟩, vs, ws, hvs, hws, htail⟩
        exact ⟨v :: vs, w :: ws, .cons hv hvs, .cons hw hws, congrArg₂ List.cons hhead htail⟩

/-- Lists have one text when their items have. -/
theorem sameText_list {items items' : List PyValue} :
    SameText P (.list items) (.list items') ↔ List.Forall₂ (SameText P) items items' := by
  have hlist {items : List PyValue} {j : Json} :
      normalize P (.list items) = .ok j ↔
        ∃ vs, List.Forall₂ (fun item v => normalize P item = .ok v) items vs ∧ j = .arr vs := by
    simp only [normalize, ← normalizeItems_eq_ok]
    rcases normalizeItems P items with e | vs <;> simp [Except.map, eq_comm]
  have hitems := exists_map_eq_map_iff (fun item v => normalize P item = .ok v)
    (fun item v => normalize P item = .ok v) Json.sorted items items'
  refine Iff.trans ?_ hitems
  simp only [SameText, hlist]
  constructor
  · rintro ⟨_, _, ⟨vs, hvs, rfl⟩, ⟨ws, hws, rfl⟩, hsorted⟩
    simp only [Json.sorted, Json.sortedItems_eq_map, Json.arr.injEq] at hsorted
    exact ⟨vs, ws, hvs, hws, hsorted⟩
  · rintro ⟨vs, ws, hvs, hws, hsorted⟩
    refine ⟨_, _, ⟨vs, hvs, rfl⟩, ⟨ws, hws, rfl⟩, ?_⟩
    simp only [Json.sorted, Json.sortedItems_eq_map, hsorted]

/-- The members of a normalised record are its fields, in their order. -/
theorem normalizeEntries_eq_ok (fields : List (String × PyValue))
    (result : List (String × Json)) (hnodup : (result.map Prod.fst ++ fields.map Prod.fst).Nodup)
    (hascii : ∀ field ∈ fields, ∀ c ∈ field.1.toList, c.val < 128)
    (members : List (String × Json)) :
    normalizeEntries P result (fields.map fun field => (.str field.1, field.2)) = .ok members ↔
      ∃ new, members = result ++ new ∧ List.Forall₂ (fun field member =>
        field.1 = member.1 ∧ normalize P field.2 = .ok member.2) fields new := by
  induction fields generalizing result members with
  | nil =>
    rw [List.map_nil, normalizeEntries_nil]
    constructor
    · rintro ⟨⟩
      exact ⟨[], by simp, .nil⟩
    · rintro ⟨_, rfl, hnew⟩
      cases hnew
      rw [List.append_nil]
  | cons field fields ih =>
    have hfresh : field.1 ∉ result.map Prod.fst := fun hmem =>
      (List.nodup_append.mp hnodup).2.2 _ hmem field.1 (by simp) rfl
    rw [List.map_cons, normalizeEntries_cons (hascii field List.mem_cons_self) hfresh]
    rcases hv : normalize P field.2 with e | v
    · refine iff_of_false (by simp [Except.bind]) ?_
      rintro ⟨_, -, hnew⟩
      cases hnew with
      | cons hmember _ => cases hv.symm.trans hmember.2
    · have hrest := ih (result ++ [(field.1, v)]) (by simpa using hnodup) fun field' hfield' =>
        hascii field' (List.mem_cons_of_mem _ hfield')
      refine (hrest members).trans ⟨?_, ?_⟩
      · rintro ⟨new, rfl, hnew⟩
        exact ⟨(field.1, v) :: new, by simp, .cons ⟨rfl, hv⟩ hnew⟩
      · rintro ⟨_, rfl, hnew⟩
        cases hnew with
        | @cons _ member _ new hmember hnew =>
          obtain ⟨hkey, hvalue⟩ := hmember
          obtain rfl : v = member.2 := Except.ok.inj (hv.symm.trans hvalue)
          exact ⟨new, by simp [hkey], hnew⟩

/-- Members under the same keys in the same order are the same once they are the same up to
order. -/
theorem eq_of_perm_of_keys {α : Type} {members members' : List (String × α)}
    (hkeys : members.map Prod.fst = members'.map Prod.fst) (hnodup : (members.map Prod.fst).Nodup)
    (h : members.Perm members') : members = members' := by
  induction members generalizing members' with
  | nil => exact (List.nil_perm.mp h).symm
  | cons member members ih =>
    cases members' with
    | nil => simp at hkeys
    | cons member' members' =>
      have hrest := (List.cons.inj hkeys).2
      rw [List.map_cons, List.nodup_cons] at hnodup
      have hsame : member = member' := by
        rcases List.mem_cons.mp (h.subset List.mem_cons_self) with heq | hmem
        · exact heq
        · exact absurd (hrest ▸ List.mem_map_of_mem hmem) hnodup.1
      subst hsame
      rw [ih hrest hnodup.2 ((List.perm_cons member).mp h)]

/-- **Records have one text when their fields have**, field by field. -/
theorem sameText_record (keys : List String) (hnodup : keys.Nodup)
    (hascii : asciiKeys keys = true) (fields fields' : List (String × PyValue))
    (hkeys : fields.map Prod.fst = keys) (hkeys' : fields'.map Prod.fst = keys) :
    SameText P (.dict (fields.map fun field => (.str field.1, field.2)))
        (.dict (fields'.map fun field => (.str field.1, field.2))) ↔
      List.Forall₂ (fun field field' => field.1 = field'.1 ∧ SameText P field.2 field'.2) fields
        fields' := by
  have hrecord (fields : List (String × PyValue)) (hkeys : fields.map Prod.fst = keys) {j : Json} :
      normalize P (.dict (fields.map fun field => (.str field.1, field.2))) = .ok j ↔
        ∃ members, List.Forall₂ (fun field member =>
          field.1 = member.1 ∧ normalize P field.2 = .ok member.2) fields members ∧
          j = .obj members := by
    have hentries := normalizeEntries_eq_ok (P := P) fields [] (by simpa [hkeys] using hnodup)
      fun field hfield => ascii_of_mem hascii (hkeys ▸ List.mem_map_of_mem hfield)
    simp only [List.nil_append, exists_eq_left'] at hentries
    simp only [normalize_dict, ← hentries]
    rcases normalizeEntries P [] _ with e | members <;> simp [Except.map, eq_comm]
  have hmemberKeys {fields : List (String × PyValue)} {members : List (String × Json)}
      (hkeys : fields.map Prod.fst = keys) (hmembers : List.Forall₂ (fun field member =>
        field.1 = member.1 ∧ normalize P field.2 = .ok member.2) fields members) :
      members.map Prod.fst = keys := by
    rw [← hkeys]
    clear hkeys
    induction hmembers with
    | nil => rfl
    | cons hmember _ ih => rw [List.map_cons, List.map_cons, ih, hmember.1]
  have hsorted {members members' : List (String × Json)} (hmembers : members.map Prod.fst = keys)
      (hmembers' : members'.map Prod.fst = keys) :
      (Json.obj members).sorted = (Json.obj members').sorted ↔
        members.map (fun member => (member.1, member.2.sorted)) =
          members'.map fun member => (member.1, member.2.sorted) := by
    rw [Json.sorted, Json.sorted, Json.obj.injEq, Json.sortedMembers_eq_map,
      Json.sortedMembers_eq_map]
    refine ⟨fun h => ?_, fun h => by rw [h]⟩
    have hperm := (List.perm_insertionSort (fun a b : String × Json => a.1 ≤ b.1)
      (members.map fun member => (member.1, member.2.sorted))).symm
    rw [h] at hperm
    refine eq_of_perm_of_keys ?_ ?_ (hperm.trans (List.perm_insertionSort _ _))
    · simpa [Function.comp_def] using hmembers.trans hmembers'.symm
    · simpa [Function.comp_def, hmembers] using hnodup
  have hfields := exists_map_eq_map_iff
    (fun (field : String × PyValue) (member : String × Json) =>
      field.1 = member.1 ∧ normalize P field.2 = .ok member.2)
    (fun (field : String × PyValue) (member : String × Json) =>
      field.1 = member.1 ∧ normalize P field.2 = .ok member.2)
    (fun member => (member.1, member.2.sorted)) fields fields'
  have hsame (field field' : String × PyValue) :
      (∃ v w : String × Json, (field.1 = v.1 ∧ normalize P field.2 = .ok v.2) ∧
        (field'.1 = w.1 ∧ normalize P field'.2 = .ok w.2) ∧ (v.1, v.2.sorted) = (w.1, w.2.sorted)) ↔
      field.1 = field'.1 ∧ SameText P field.2 field'.2 := by
    constructor
    · rintro ⟨v, w, ⟨hkey, hv⟩, ⟨hkey', hw⟩, heq⟩
      obtain ⟨hvw, hsort⟩ := Prod.mk.inj heq
      exact ⟨hkey.trans (hvw.trans hkey'.symm), v.2, w.2, hv, hw, hsort⟩
    · rintro ⟨hkey, j, k, hj, hk, hsort⟩
      exact ⟨(field.1, j), (field'.1, k), ⟨rfl, hj⟩, ⟨rfl, hk⟩, Prod.ext hkey hsort⟩
  simp only [hsame] at hfields
  rw [← hfields]
  simp only [SameText, hrecord fields hkeys, hrecord fields' hkeys']
  constructor
  · rintro ⟨_, _, ⟨members, hmembers, rfl⟩, ⟨members', hmembers', rfl⟩, heq⟩
    exact ⟨members, members', hmembers, hmembers',
      (hsorted (hmemberKeys hkeys hmembers) (hmemberKeys hkeys' hmembers')).mp heq⟩
  · rintro ⟨members, members', hmembers, hmembers', heq⟩
    exact ⟨_, _, ⟨members, hmembers, rfl⟩, ⟨members', hmembers', rfl⟩,
      (hsorted (hmemberKeys hkeys hmembers) (hmemberKeys hkeys' hmembers')).mpr heq⟩

end

end CyranoAgent
