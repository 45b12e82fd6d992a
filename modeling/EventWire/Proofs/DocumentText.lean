/-
EventWire.Proofs.DocumentText — a document is read as it was written.

The writer puts the parts of a document one after the other, and the reader has to tell
where each ends. Texts and lists have an end of their own. A number has none: it ends
where something follows that could not belong to it (`Json.EndsNumber`), and in a document
this is a comma, a bracket or nothing. So every part is read back with whatever follows
it, as long as a number would end there (`Json.ReadsValues`).

Within a text each character is written as itself or as an escape, and no escape is taken
for anything else (`Json.exists_piece`). A control character comes back as a unit of
UTF-16, which is below the surrogates, so it is never taken for half of a pair.

Reading has a bound on its depth. Two rounds for each character are enough, since a
value that is read within an array or an object takes at most two rounds and leaves a
character behind: its bracket, or the comma before it.
-/
import EventWire.Json.Reader
import EventWire.Json.Writer

namespace EventWire

/-! ## Digits -/

namespace Decimal

theorem digit?_digitChar (d : Digit) : digit? (digitChar d) = some d := by
  revert d
  decide

theorem isDigit_digitChar (d : Digit) : (digitChar d).isDigit := by
  revert d
  decide

theorem digits_ne_nil (n : Nat) : digits n ≠ [] := by
  rw [digits]
  split <;> simp

theorem ofDigits_append (ds : List Digit) (d : Digit) :
    ofDigits (ds ++ [d]) = ofDigits ds * 10 + d.val := by
  rw [ofDigits, List.foldl_append]
  rfl

/-- A number has the digits that it is written with. -/
theorem ofDigits_digits (n : Nat) : ofDigits (digits n) = n := by
  induction n using Nat.strongRecOn with
  | ind n ih =>
    rw [digits]
    split
    · rename_i hsmall
      simp [ofDigits, Nat.mod_eq_of_lt hsmall]
    · rw [ofDigits_append, ih (n / 10) (by omega)]
      simp only [Fin.ofNat]
      omega

/-- No zero comes first but that of zero itself. -/
theorem length_digits_of_head? {n : Nat} (h : (digits n).head? = some zero) :
    (digits n).length = 1 := by
  induction n using Nat.strongRecOn with
  | ind n ih =>
    rw [digits] at h ⊢
    split
    · rfl
    · rename_i hlarge
      have hfront : (digits (n / 10)).head? = some zero := by
        obtain ⟨d, ds, hdigits⟩ := List.exists_cons_of_ne_nil (digits_ne_nil (n / 10))
        rw [if_neg hlarge, hdigits] at h
        rw [hdigits]
        exact h
      have hone := ih (n / 10) (by omega) hfront
      have hsmall : n / 10 < 10 := by
        refine Decidable.byContradiction fun hnot => ?_
        rw [digits, if_neg hnot, List.length_append, List.length_singleton] at hone
        exact digits_ne_nil (n / 10 / 10) (List.eq_nil_of_length_eq_zero (by omega))
      rw [digits, if_pos hsmall] at hfront
      have hzero := congrArg Fin.val (Option.some.inj hfront)
      simp [zero, Fin.ofNat] at hzero
      omega

/-- Digits end where none follows. -/
theorem spanDigits_map (ds : List Digit) {rest : List Char}
    (h : ∀ c, rest.head? = some c → digit? c = none) :
    spanDigits (ds.map digitChar ++ rest) = (ds, rest) := by
  induction ds with
  | nil =>
    cases rest with
    | nil => rfl
    | cons c rest => simp [spanDigits, h c rfl]
  | cons d ds ih => simp [spanDigits, digit?_digitChar, ih]

end Decimal

namespace Json

open Decimal (Digit digits digitChar)

/-! ## Numbers -/

/-- A number that is written before `rest` ends there. -/
def EndsNumber (rest : List Char) : Prop :=
  ∀ c, rest.head? = some c → Decimal.digit? c = none ∧ c ≠ '.' ∧ c ≠ 'e' ∧ c ≠ 'E'

theorem endsNumber_nil : EndsNumber [] := by
  intro c h
  exact nomatch h

theorem endsNumber_cons {c : Char} {rest : List Char}
    (h : Decimal.digit? c = none ∧ c ≠ '.' ∧ c ≠ 'e' ∧ c ≠ 'E') : EndsNumber (c :: rest) := by
  intro d hd
  cases hd
  exact h

theorem readDigits_map {ds : List Digit} (hds : ds ≠ []) {rest : List Char}
    (h : ∀ c, rest.head? = some c → Decimal.digit? c = none) :
    readDigits (ds.map digitChar ++ rest) = some (ds, rest) := by
  rw [readDigits, Decimal.spanDigits_map ds h]
  cases ds with
  | nil => exact absurd rfl hds
  | cons d ds => rfl

theorem readWhole_writeNat (n : Nat) {rest : List Char}
    (h : ∀ c, rest.head? = some c → Decimal.digit? c = none) :
    readWhole (writeNat n ++ rest) = some (n, rest) := by
  rw [readWhole, writeNat, readDigits_map (Decimal.digits_ne_nil n) h]
  have hzero : ¬ ((digits n).head? = some Decimal.zero ∧ 1 < (digits n).length) := by
    rintro ⟨hhead, hlong⟩
    rw [Decimal.length_digits_of_head? hhead] at hlong
    exact Nat.lt_irrefl _ hlong
  simp [hzero, Decimal.ofDigits_digits]

theorem readPower_writeNat (negative : Bool) (n : Nat) {rest : List Char}
    (h : ∀ c, rest.head? = some c → Decimal.digit? c = none) :
    readPower negative (writeNat n ++ rest) =
      some (some (if negative then -(n : Int) else n), rest) := by
  rw [readPower, writeNat, readDigits_map (Decimal.digits_ne_nil n) h]
  simp [Decimal.ofDigits_digits]

/-- The digits after the point, with the point, if there are any. -/
def writeFraction (fraction : List Digit) : List Char :=
  if fraction.isEmpty then [] else '.' :: fraction.map digitChar

/-- The power of ten, if there is one. -/
def writeExponent : Option Int → List Char
  | none => []
  | some e => writePower e

theorem readFraction_write (fraction : List Digit) {rest : List Char}
    (h : ∀ c, rest.head? = some c → Decimal.digit? c = none ∧ c ≠ '.') :
    readFraction (writeFraction fraction ++ rest) = some (fraction, rest) := by
  cases fraction with
  | nil =>
    cases rest with
    | nil => rfl
    | cons c rest =>
      have hpoint := (h c rfl).2
      unfold readFraction
      split
      · rename_i heq
        exact absurd (List.cons.inj heq).1 hpoint
      · rfl
  | cons d ds => exact readDigits_map (by simp) fun c hc => (h c hc).1

theorem readExponent_write (exponent : Option Int) {rest : List Char} (h : EndsNumber rest) :
    readExponent (writeExponent exponent ++ rest) = some (exponent, rest) := by
  cases exponent with
  | none =>
    cases rest with
    | nil => rfl
    | cons c rest =>
      obtain ⟨-, -, hlower, hupper⟩ := h c rfl
      simp [writeExponent, readExponent, hlower, hupper]
  | some e =>
    have hread := fun negative => readPower_writeNat negative e.natAbs fun c hc => (h c hc).1
    by_cases hneg : e < 0
    · simp only [writeExponent, writePower, hneg, if_true, List.cons_append, readExponent,
        true_or, hread]
      congr 3
      omega
    · simp only [writeExponent, writePower, hneg, if_false, List.cons_append, readExponent,
        true_or, if_true, hread]
      simp
      omega

theorem writeNumber_eq (n : Number) :
    writeNumber n = (if n.negative then ['-'] else []) ++
      (writeNat n.whole ++ (writeFraction n.fraction ++ writeExponent n.exponent)) := by
  obtain ⟨negative, whole, fraction, exponent⟩ := n
  cases exponent <;> simp [writeNumber, writeFraction, writeExponent]

/-- Behind the digits before the point comes the point, an exponent, or the end. -/
theorem readUnsigned_write (n : Number) {rest : List Char} (h : EndsNumber rest) :
    readUnsigned n.negative (writeNat n.whole ++
      (writeFraction n.fraction ++ (writeExponent n.exponent ++ rest))) = some (n, rest) := by
  have hexponent : ∀ c, (writeExponent n.exponent ++ rest).head? = some c →
      Decimal.digit? c = none ∧ c ≠ '.' := by
    intro c hc
    cases hpower : n.exponent with
    | none =>
      rw [hpower] at hc
      exact ⟨(h c hc).1, (h c hc).2.1⟩
    | some e =>
      rw [hpower] at hc
      cases hc
      decide
  have hwhole : ∀ c, (writeFraction n.fraction ++ (writeExponent n.exponent ++ rest)).head? =
      some c → Decimal.digit? c = none := by
    intro c hc
    cases hfraction : n.fraction with
    | nil =>
      rw [hfraction] at hc
      exact (hexponent c hc).1
    | cons d ds =>
      rw [hfraction] at hc
      cases hc
      decide
  rw [readUnsigned, readWhole_writeNat n.whole hwhole]
  simp [readFraction_write n.fraction hexponent, readExponent_write n.exponent h]

/-- A natural number begins with a digit. -/
theorem exists_writeNat_cons (n : Nat) : ∃ (d : Digit) (cs : List Char),
    writeNat n = digitChar d :: cs := by
  obtain ⟨d, ds, h⟩ := List.exists_cons_of_ne_nil (Decimal.digits_ne_nil n)
  exact ⟨d, ds.map digitChar, by rw [writeNat, h, List.map_cons]⟩

theorem readNumber_write (n : Number) {rest : List Char} (h : EndsNumber rest) :
    readNumber (writeNumber n ++ rest) = some (n, rest) := by
  have hread := readUnsigned_write n h
  rw [writeNumber_eq]
  cases hsign : n.negative with
  | true =>
    rw [hsign] at hread
    simpa [readNumber] using hread
  | false =>
    obtain ⟨d, cs, hwhole⟩ := exists_writeNat_cons n.whole
    have hdigit : digitChar d ≠ '-' := fun heq =>
      absurd (heq ▸ Decimal.isDigit_digitChar d) (by decide)
    rw [hsign, hwhole] at hread
    simp only [Bool.false_eq_true, if_false, List.nil_append, hwhole, List.append_assoc,
      List.cons_append] at hread ⊢
    rw [readNumber]
    · exact hread
    · intro rest' heq
      exact hdigit (List.cons.inj heq).1

/-! ## Texts -/

theorem hexValue?_hexDigit {n : Nat} (h : n < 16) : hexValue? (hexDigit n) = some n := by
  revert n
  decide

theorem unit?_hexDigit {n : Nat} (h : n < 0x20) :
    unit? '0' '0' (hexDigit (n / 16)) (hexDigit (n % 16)) = some n := by
  have hzero : hexValue? '0' = some 0 := by decide
  simp only [unit?, hzero, hexValue?_hexDigit (show n / 16 < 16 by omega),
    hexValue?_hexDigit (show n % 16 < 16 by omega)]
  simp
  omega

/-- A character is written after a backslash as another one, as the number of its unit, or
as it is. -/
theorem escape_cases (c : Char) :
    (∃ d, escape c = ['\\', d] ∧ unescape? d = some c) ∨
      (escape c = ['\\', 'u', '0', '0', hexDigit (c.toNat / 16), hexDigit (c.toNat % 16)] ∧
        c.toNat < 0x20) ∨
      (escape c = [c] ∧ c ≠ '"' ∧ c ≠ '\\' ∧ ¬ c.toNat < 0x20) := by
  unfold escape
  split
  · subst c
    exact .inl ⟨'"', rfl, by decide⟩
  rename_i hquote
  split
  · subst c
    exact .inl ⟨'\\', rfl, by decide⟩
  rename_i hslash
  split
  · subst c
    exact .inl ⟨'b', rfl, by decide⟩
  split
  · subst c
    exact .inl ⟨'t', rfl, by decide⟩
  split
  · subst c
    exact .inl ⟨'n', rfl, by decide⟩
  split
  · subst c
    exact .inl ⟨'f', rfl, by decide⟩
  split
  · subst c
    exact .inl ⟨'r', rfl, by decide⟩
  split
  · rename_i hcontrol
    exact .inr (.inl ⟨rfl, hcontrol⟩)
  · rename_i hplain
    exact .inr (.inr ⟨rfl, hquote, hslash, hplain⟩)

section Pieces

variable {c d : Char} (rest : List Char)

theorem readPieces_of_unescape? (h : unescape? d = some c) :
    readPieces ('\\' :: d :: rest) =
      (readPieces rest).map fun (pieces, rest) => (.char c :: pieces, rest) := by
  have hunit : d ≠ 'u' := by
    rintro rfl
    have hnone : unescape? 'u' = none := by decide
    exact nomatch hnone.symm.trans h
  rw [readPieces, h]
  · cases readPieces rest <;> rfl
  · intro _ _ _ _ _ heq
    exact absurd heq hunit

theorem readPieces_unit {n : Nat} {a b : Char} (h : unit? '0' '0' a b = some n) :
    readPieces ('\\' :: 'u' :: '0' :: '0' :: a :: b :: rest) =
      (readPieces rest).map fun (pieces, rest) => (.unit n :: pieces, rest) := by
  rw [readPieces, h]
  cases readPieces rest <;> rfl

theorem readPieces_plain (hquote : c ≠ '"') (hslash : c ≠ '\\') (hplain : ¬ c.toNat < 0x20) :
    readPieces (c :: rest) =
      (readPieces rest).map fun (pieces, rest) => (.char c :: pieces, rest) := by
  rw [readPieces]
  · simp only [hplain, hslash, or_self, if_false]
    cases readPieces rest <;> rfl
  · exact hquote
  · intro _ _ _ _ _ heq
    exact absurd heq hslash
  · intro _ _ heq
    exact absurd heq hslash

end Pieces

/-- A unit below the surrogates is a character, whatever follows it. -/
theorem joinPieces_unit {c : Char} (h : c.toNat < 0x20) (pieces : List Piece) :
    joinPieces (.unit c.toNat :: pieces) = (joinPieces pieces).map (c :: ·) := by
  have hhigh : isHighSurrogate c.toNat = false := by
    simp [isHighSurrogate]
    omega
  have hlow : isLowSurrogate c.toNat = false := by
    simp [isLowSurrogate]
    omega
  have hchar : Char.ofNat c.toNat = c := Char.ofNat_toNat c
  cases pieces with
  | nil => simp [joinPieces, hhigh, hlow, hchar]
  | cons piece pieces => cases piece <;> simp [joinPieces, hhigh, hlow, hchar]

/-- **Each character is read back** from its escape, and nothing of what follows is. -/
theorem exists_piece (c : Char) : ∃ piece,
    (∀ rest, readPieces (escape c ++ rest) =
      (readPieces rest).map fun (pieces, rest) => (piece :: pieces, rest)) ∧
    ∀ pieces, joinPieces (piece :: pieces) = (joinPieces pieces).map (c :: ·) := by
  rcases escape_cases c with ⟨d, hescape, hd⟩ | ⟨hescape, hcontrol⟩ |
    ⟨hescape, hquote, hslash, hplain⟩
  · refine ⟨.char c, fun rest => ?_, fun _ => rfl⟩
    rw [hescape]
    exact readPieces_of_unescape? rest hd
  · refine ⟨.unit c.toNat, fun rest => ?_, joinPieces_unit hcontrol⟩
    rw [hescape]
    exact readPieces_unit rest (unit?_hexDigit hcontrol)
  · refine ⟨.char c, fun rest => ?_, fun _ => rfl⟩
    rw [hescape]
    exact readPieces_plain rest hquote hslash hplain

theorem exists_pieces (cs rest : List Char) : ∃ pieces,
    readPieces (cs.flatMap escape ++ '"' :: rest) = some (pieces, rest) ∧
      joinPieces pieces = some cs := by
  induction cs with
  | nil => exact ⟨[], by simp [readPieces], rfl⟩
  | cons c cs ih =>
    obtain ⟨pieces, hread, hjoin⟩ := ih
    obtain ⟨piece, hpiece, hchar⟩ := exists_piece c
    refine ⟨piece :: pieces, ?_, by rw [hchar, hjoin]; rfl⟩
    rw [List.flatMap_cons, List.append_assoc, hpiece, hread]
    rfl

/-- **A string literal is read back** after its opening quote. -/
theorem readLiteral_write (s : Literal) : ∃ body, writeLiteral s = '"' :: body ∧
    ∀ rest, readLiteral (body ++ rest) = some (s, rest) := by
  cases s with
  | none => exact ⟨_, rfl, fun _ => rfl⟩
  | some s =>
    refine ⟨s.toList.flatMap escape ++ ['"'], rfl, fun rest => ?_⟩
    obtain ⟨pieces, hread, hjoin⟩ := exists_pieces s.toList rest
    rw [List.append_assoc, List.singleton_append, readLiteral, hread]
    simp [hjoin]

/-! ## Documents -/

theorem skipBlanks_cons {c : Char} (h : isBlank c = false) (cs : List Char) :
    skipBlanks (c :: cs) = c :: cs := by
  simp [skipBlanks, h]

theorem exists_writeNumber_cons (n : Number) : ∃ (c : Char) (cs : List Char),
    writeNumber n = c :: cs ∧ (c = '-' ∨ ∃ d, c = digitChar d) := by
  rw [writeNumber_eq]
  cases n.negative with
  | true => exact ⟨'-', _, rfl, .inl rfl⟩
  | false =>
    obtain ⟨d, cs, hwhole⟩ := exists_writeNat_cons n.whole
    exact ⟨digitChar d, _, by rw [hwhole]; rfl, .inr ⟨d, rfl⟩⟩

/-- What a number begins with begins nothing else. -/
theorem numberStart {c : Char} (h : c = '-' ∨ ∃ d, c = digitChar d) :
    isBlank c = false ∧ c ≠ ']' ∧ c ≠ 'n' ∧ c ≠ 't' ∧ c ≠ 'f' ∧ c ≠ '"' ∧ c ≠ '[' ∧
      c ≠ '\x7b' := by
  rcases h with rfl | ⟨d, rfl⟩
  · decide
  · revert d
    decide

/-- No document begins with a blank or with a bracket that closes one. -/
theorem exists_write_cons (document : Json) : ∃ (c : Char) (cs : List Char),
    document.write = c :: cs ∧ isBlank c = false ∧ c ≠ ']' := by
  cases document with
  | null => exact ⟨'n', _, by rw [write], by decide, by decide⟩
  | bool b =>
    cases b with
    | true => exact ⟨'t', _, by rw [write], by decide, by decide⟩
    | false => exact ⟨'f', _, by rw [write], by decide, by decide⟩
  | number n =>
    obtain ⟨c, cs, hwrite, hc⟩ := exists_writeNumber_cons n
    exact ⟨c, cs, by rw [write, hwrite], (numberStart hc).1, (numberStart hc).2.1⟩
  | string s =>
    obtain ⟨body, hwrite, -⟩ := readLiteral_write s
    exact ⟨'"', body, by rw [write, hwrite], by decide, by decide⟩
  | array items => exact ⟨'[', _, by rw [write]; rfl, by decide, by decide⟩
  | object members => exact ⟨'\x7b', _, by rw [write]; rfl, by decide, by decide⟩

theorem length_write_pos (document : Json) : 0 < document.write.length := by
  obtain ⟨c, cs, hwrite, -⟩ := exists_write_cons document
  rw [hwrite]
  exact Nat.succ_pos _

theorem writeItems_cons_cons (item next : Json) (items : List Json) :
    writeItems (item :: next :: items) = write item ++ ',' :: writeItems (next :: items) := by
  rw [writeItems]
  simp

theorem writeMembers_cons_cons (name : Literal) (value : Json) (next : Literal × Json)
    (members : List (Literal × Json)) :
    writeMembers ((name, value) :: next :: members) =
      writeLiteral name ++ ':' :: (write value ++ ',' :: writeMembers (next :: members)) := by
  rw [writeMembers]
  · simp
  · simp

theorem exists_writeItems_cons (item : Json) (items : List Json) : ∃ (c : Char) (cs : List Char),
    writeItems (item :: items) = c :: cs ∧ isBlank c = false ∧ c ≠ ']' := by
  obtain ⟨c, cs, hwrite, hc⟩ := exists_write_cons item
  cases items with
  | nil => exact ⟨c, cs, by rw [writeItems, hwrite], hc⟩
  | cons next items => exact ⟨c, _, by rw [writeItems_cons_cons, hwrite]; rfl, hc⟩

theorem exists_writeMembers_cons (member : Literal × Json) (members : List (Literal × Json)) :
    ∃ cs, writeMembers (member :: members) = '"' :: cs := by
  obtain ⟨name, value⟩ := member
  obtain ⟨body, hwrite, -⟩ := readLiteral_write name
  cases members with
  | nil => exact ⟨_, by rw [writeMembers, hwrite]; rfl⟩
  | cons next members => exact ⟨_, by rw [writeMembers_cons_cons, hwrite]; rfl⟩

/-- With this depth, documents are read back where a number would end. -/
def ReadsValues (fuel : Nat) : Prop :=
  ∀ (document : Json) (rest : List Char), 2 * document.write.length ≤ fuel → EndsNumber rest →
    readValue fuel (document.write ++ rest) = some (document, rest)

/-- With this depth, items are read back with their closing bracket. -/
def ReadsItems (fuel : Nat) : Prop :=
  ∀ (item : Json) (items : List Json) (rest : List Char),
    2 * (writeItems (item :: items)).length + 1 ≤ fuel →
    readItems fuel (writeItems (item :: items) ++ ']' :: rest) = some (item :: items, rest)

/-- With this depth, members are read back with their closing brace. -/
def ReadsMembers (fuel : Nat) : Prop :=
  ∀ (member : Literal × Json) (members : List (Literal × Json)) (rest : List Char),
    2 * (writeMembers (member :: members)).length + 1 ≤ fuel →
    readMembers fuel (writeMembers (member :: members) ++ '\x7d' :: rest) =
      some (member :: members, rest)

section Steps

variable {fuel : Nat}

theorem readValue_number (n : Number) {rest : List Char} (h : EndsNumber rest) :
    readValue (fuel + 1) (writeNumber n ++ rest) = some (number n, rest) := by
  have hread := readNumber_write n h
  obtain ⟨c, cs, hwrite, hc⟩ := exists_writeNumber_cons n
  obtain ⟨hblank, -, hnull, htrue, hfalse, hquote, hbracket, hbrace⟩ := numberStart hc
  rw [hwrite, List.cons_append] at hread ⊢
  rw [readValue, skipBlanks_cons hblank]
  simp only [hnull, htrue, hfalse, hquote, hbracket, hbrace, if_false, hread, Option.map_some]

theorem readsValues_succ (hitems : ReadsItems fuel) (hmembers : ReadsMembers fuel) :
    ReadsValues (fuel + 1) := by
  intro document rest hfuel hend
  cases document with
  | null => simp [write, readValue, skipBlanks, isBlank, dropWord?]
  | bool b => cases b <;> simp [write, readValue, skipBlanks, isBlank, dropWord?]
  | number n =>
    rw [write]
    exact readValue_number n hend
  | string s =>
    obtain ⟨body, hwrite, hread⟩ := readLiteral_write s
    rw [write, hwrite, List.cons_append, readValue, skipBlanks_cons (by decide)]
    simp [hread]
  | array items =>
    simp only [write, List.cons_append, List.append_assoc, List.nil_append, List.length_cons,
      List.length_append, List.length_nil] at hfuel ⊢
    rw [readValue, skipBlanks_cons (by decide)]
    cases items with
    | nil => simp [writeItems, skipBlanks, isBlank]
    | cons item items =>
      have hread := hitems item items rest (by omega)
      obtain ⟨c, cs, hwrite, hblank, hclose⟩ := exists_writeItems_cons item items
      rw [hwrite, List.cons_append] at hread ⊢
      simp [skipBlanks_cons hblank, hclose, hread]
  | object members =>
    simp only [write, List.cons_append, List.append_assoc, List.nil_append, List.length_cons,
      List.length_append, List.length_nil] at hfuel ⊢
    rw [readValue, skipBlanks_cons (by decide)]
    cases members with
    | nil => simp [writeMembers, skipBlanks, isBlank]
    | cons member members =>
      have hread := hmembers member members rest (by omega)
      obtain ⟨cs, hwrite⟩ := exists_writeMembers_cons member members
      rw [hwrite, List.cons_append] at hread ⊢
      simp [skipBlanks_cons (show isBlank '"' = false by decide), hread]

theorem readsItems_succ (hvalues : ReadsValues fuel) (hitems : ReadsItems fuel) :
    ReadsItems (fuel + 1) := by
  intro item items rest hfuel
  cases items with
  | nil =>
    rw [writeItems] at hfuel ⊢
    have hend : EndsNumber (']' :: rest) := endsNumber_cons (by decide)
    rw [readItems, hvalues item _ (by omega) hend]
    simp [skipBlanks_cons (show isBlank ']' = false by decide)]
  | cons next items =>
    rw [writeItems_cons_cons] at hfuel ⊢
    simp only [List.length_append, List.length_cons] at hfuel
    have hend : EndsNumber (',' :: (writeItems (next :: items) ++ ']' :: rest)) :=
      endsNumber_cons (by decide)
    rw [List.append_assoc, List.cons_append, readItems, hvalues item _ (by omega) hend]
    simp [skipBlanks_cons (show isBlank ',' = false by decide), hitems next items rest (by omega)]

theorem readsMembers_succ (hvalues : ReadsValues fuel) (hmembers : ReadsMembers fuel) :
    ReadsMembers (fuel + 1) := by
  intro (name, value) members rest hfuel
  obtain ⟨body, hwrite, hread⟩ := readLiteral_write name
  cases members with
  | nil =>
    simp only [writeMembers, hwrite, List.length_append, List.length_cons, List.cons_append,
      List.append_assoc] at hfuel ⊢
    have hend : EndsNumber ('\x7d' :: rest) := endsNumber_cons (by decide)
    rw [readMembers, skipBlanks_cons (by decide)]
    simp [hread, dropColon?, skipBlanks_cons (show isBlank ':' = false by decide),
      hvalues value _ (by omega) hend, skipBlanks_cons (show isBlank '\x7d' = false by decide)]
  | cons next members =>
    simp only [writeMembers_cons_cons, hwrite, List.length_append, List.length_cons,
      List.cons_append, List.append_assoc] at hfuel ⊢
    have hend : EndsNumber (',' :: (writeMembers (next :: members) ++ '\x7d' :: rest)) :=
      endsNumber_cons (by decide)
    rw [readMembers, skipBlanks_cons (by decide)]
    simp [hread, dropColon?, skipBlanks_cons (show isBlank ':' = false by decide),
      hvalues value _ (by omega) hend, skipBlanks_cons (show isBlank ',' = false by decide),
      hmembers next members rest (by omega)]

end Steps

/-- At every depth all parts are read back that are short enough for it. -/
theorem reads_written (fuel : Nat) : ReadsValues fuel ∧ ReadsItems fuel ∧ ReadsMembers fuel := by
  induction fuel with
  | zero =>
    refine ⟨fun document rest hfuel => ?_, fun _ _ _ hfuel => ?_, fun _ _ _ hfuel => ?_⟩
    · have := length_write_pos document
      omega
    · omega
    · omega
  | succ fuel ih =>
    obtain ⟨hvalues, hitems, hmembers⟩ := ih
    exact ⟨readsValues_succ hitems hmembers, readsItems_succ hvalues hitems,
      readsMembers_succ hvalues hmembers⟩

/-- **A document is read back from its text**, whichever it is. -/
theorem read?_render (document : Json) : read? document.render = some document := by
  have hread := (reads_written (2 * document.write.length + 2)).1 document [] (by omega)
    endsNumber_nil
  rw [List.append_nil] at hread
  simp [read?, render, hread, skipBlanks]

/-- Different documents have different texts. -/
theorem render_injective {a b : Json} (h : a.render = b.render) : a = b := by
  have hread := read?_render a
  rw [h, read?_render] at hread
  exact (Option.some.inj hread).symm

end Json
end EventWire
