import BeaconBranch.Json.Printer
import BeaconBranch.Proofs.Lookup
import BeaconBranch.Proofs.Text.Decimal
import BeaconBranch.Proofs.Text.Hex
import BeaconBranch.Remote.Body

/-!
What is written on one line is read back. A plain value has neither numbers nor bytes in it; its
texts are written as they stand, no key of an object comes twice, and it is not nested too deep.
Main statements: the text of a plain value spells this value, and so do the bytes of this text.
-/

namespace BeaconBranch.Json

/-! ### Texts -/

/-- A character that is written as it stands. -/
def IsPlain (c : Char) : Prop := 32 ≤ c.toNat ∧ c.toNat < 127 ∧ c ≠ '"' ∧ c ≠ '\\'

instance : DecidablePred IsPlain := fun _ => inferInstanceAs (Decidable (_ ∧ _))

/-- A text that is written as it stands. -/
def PlainText (s : String) : Prop := ∀ c ∈ s.toList, IsPlain c

instance : DecidablePred PlainText := fun s => List.decidableBAll IsPlain s.toList

variable {c : Char} {cs cs' : List Char} {s : String}

theorem isPlain_digit {n : Nat} (lt : n < 16) : IsPlain (Hex.digit n) := by
  interval_cases n <;> decide

/-- Marked bytes are written as they stand. -/
theorem plainText_marked (b : ByteArray) : PlainText (Hex.marked b) := by
  intro c mem
  rw [Hex.toList_marked] at mem
  rcases List.mem_cons.mp mem with rfl | mem
  · decide
  · rcases List.mem_cons.mp mem with rfl | mem
    · decide
    · obtain ⟨n, lt, rfl⟩ := Hex.mem_digits mem
      exact isPlain_digit lt

/-- Numbers are written as they stand. -/
theorem plainText_toString (n : Nat) : PlainText (toString (n : Int)) := by
  intro c mem
  rw [Decimal.toList_toString] at mem
  obtain ⟨ge, le⟩ := Decimal.toNat_of_isDigit (Decimal.isDigit_of_mem mem)
  refine ⟨by omega, by omega, ?_, ?_⟩
  · rintro rfl
    exact absurd ge (by decide)
  · rintro rfl
    exact absurd le (by decide)

theorem IsPlain.ne_mark (plain : IsPlain c) : c ≠ CodePoints.mark := by
  rintro rfl
  have small := plain.2.1
  rw [CodePoints.toNat_mark] at small
  omega

theorem ofText_of_plain (plain : PlainText s) :
    CodePoints.ofText s = s.toList.map Char.toNat :=
  CodePoints.ofText_of_ne_mark fun c mem => (plain c mem).ne_mark

theorem write_of_plain (plain : IsPlain c) : CodePoints.write c.toNat = [c] := by
  rw [CodePoints.write, CodePoints.isHalf_toNat, Char.ofNat_toNat, if_neg plain.ne_mark]
  rfl

theorem text_of_plain (plain : PlainText s) : CodePoints.text (s.toList.map Char.toNat) = s := by
  have each : (s.toList.map Char.toNat).flatMap CodePoints.write = s.toList := by
    rw [List.flatMap_map]
    exact (List.flatMap_congr fun c mem => write_of_plain (plain c mem)).trans
      (List.flatMap_singleton' _)
  rw [CodePoints.text, each, String.ofList_toList]

theorem pushPoint_of_plain (plain : IsPlain c) (out : String) :
    pushPoint out c.toNat = out.push c := by
  obtain ⟨ge, lt, notQuote, notSlash⟩ := plain
  rw [pushPoint, Char.ofNat_toNat]
  split <;> simp_all

theorem textFrom?_of_plain (plain : ∀ c ∈ cs, IsPlain c) (acc : List Nat) (rest : List Char) :
    textFrom? acc (cs ++ '"' :: rest) =
      some (CodePoints.text (acc.reverse ++ cs.map Char.toNat), rest) := by
  induction cs generalizing acc with
  | nil => simp [textFrom?]
  | cons c cs ih =>
    obtain ⟨⟨ge, -, notQuote, notSlash⟩, others⟩ := List.forall_mem_cons.mp plain
    rw [List.cons_append, textFrom?, if_neg (by omega), ih others]
    · simp
    all_goals simp_all

/-! ### What is pushed is appended -/

theorem toList_pushUnit (out : String) (n : Nat) :
    (pushUnit out n).toList = out.toList ++ (pushUnit "" n).toList := by
  simp [pushUnit]

theorem toList_pushPoint (out : String) (p : Nat) :
    (pushPoint out p).toList = out.toList ++ (pushPoint "" p).toList := by
  rw [pushPoint, pushPoint]
  split <;> try simp
  split
  · simp
  · split
    · exact toList_pushUnit out p
    · rw [toList_pushUnit, toList_pushUnit out, toList_pushUnit (pushUnit "" _), List.append_assoc]

theorem toList_foldl_pushPoint (out : String) (ps : List Nat) :
    (ps.foldl pushPoint out).toList = out.toList ++ (ps.foldl pushPoint "").toList := by
  induction ps generalizing out with
  | nil => simp
  | cons p ps ih =>
    rw [List.foldl_cons, List.foldl_cons, ih, ih (pushPoint "" p), toList_pushPoint,
      List.append_assoc]

theorem toList_pushText (out s : String) :
    (pushText out s).toList = out.toList ++ (pushText "" s).toList := by
  rw [pushText, pushText, String.toList_push, String.toList_push, toList_foldl_pushPoint,
    toList_foldl_pushPoint ("".push '"')]
  simp

mutual

theorem toList_pushValue (out : String) : ∀ v,
    (pushValue out v).toList = out.toList ++ (render v).toList
  | .null => by simp [pushValue, render]
  | .flag b => by simp [pushValue, render]
  | .int n => by simp [pushValue, render]
  | .real x => by simp [pushValue, render]
  | .text s => by rw [render, pushValue, pushValue, toList_pushText]
  | .bytes b => by simp [pushValue, render]
  | .list xs => by
    rw [render, pushValue, pushValue, String.toList_push, String.toList_push, toList_pushItems,
      toList_pushItems ("".push '[')]
    simp
  | .object es => by
    rw [render, pushValue, pushValue, String.toList_push, String.toList_push, toList_pushEntries,
      toList_pushEntries ("".push '\x7b')]
    simp

theorem toList_pushItems (out : String) : ∀ xs,
    (pushItems out xs).toList = out.toList ++ (pushItems "" xs).toList
  | [] => by simp [pushItems]
  | [x] => by rw [pushItems, pushItems, toList_pushValue]; rfl
  | x :: y :: rest => by
    rw [pushItems, pushItems, toList_pushItems, toList_pushItems (pushValue "" x ++ ", "),
      String.toList_append, String.toList_append, toList_pushValue out x, toList_pushValue "" x]
    simp

theorem toList_pushEntries (out : String) : ∀ es,
    (pushEntries out es).toList = out.toList ++ (pushEntries "" es).toList
  | [] => by simp [pushEntries]
  | [(k, v)] => by
    rw [pushEntries, pushEntries, toList_pushValue, toList_pushValue (pushText "" k ++ ": "),
      String.toList_append, String.toList_append, toList_pushText out]
    simp
  | (k, v) :: e :: rest => by
    rw [pushEntries, pushEntries, toList_pushEntries,
      toList_pushEntries (pushValue (pushText "" k ++ ": ") v ++ ", "), String.toList_append,
      String.toList_append, toList_pushValue (pushText out k ++ ": "),
      toList_pushValue (pushText "" k ++ ": "), String.toList_append, String.toList_append,
      toList_pushText out]
    simp

end

/-! ### What is written -/

theorem toList_pushText_of_plain (plain : PlainText s) :
    (pushText "" s).toList = '"' :: (s.toList ++ ['"']) := by
  have points : ∀ (cs : List Char) (out : String), (∀ c ∈ cs, IsPlain c) →
      ((cs.map Char.toNat).foldl pushPoint out).toList = out.toList ++ cs := by
    intro cs
    induction cs with
    | nil => simp
    | cons c cs ih =>
      intro out plain
      obtain ⟨first, rest⟩ := List.forall_mem_cons.mp plain
      rw [List.map_cons, List.foldl_cons, pushPoint_of_plain first, ih _ rest]
      simp
  rw [pushText, ofText_of_plain plain, String.toList_push, points _ _ plain]
  simp

theorem toList_render_list (xs : List Value) :
    (render (.list xs)).toList = '[' :: ((pushItems "" xs).toList ++ [']']) := by
  rw [render, pushValue, String.toList_push, toList_pushItems]
  simp

theorem toList_render_object (es : List (String × Value)) :
    (render (.object es)).toList = '\x7b' :: ((pushEntries "" es).toList ++ ['\x7d']) := by
  rw [render, pushValue, String.toList_push, toList_pushEntries]
  simp

theorem toList_pushItems_cons (x y : Value) (rest : List Value) :
    (pushItems "" (x :: y :: rest)).toList =
      (render x).toList ++ ',' :: ' ' :: (pushItems "" (y :: rest)).toList := by
  rw [pushItems, toList_pushItems, String.toList_append, render]
  simp

theorem toList_pushEntries_one {k : String} (plain : PlainText k) (v : Value) :
    (pushEntries "" [(k, v)]).toList =
      '"' :: (k.toList ++ '"' :: ':' :: ' ' :: (render v).toList) := by
  rw [pushEntries, toList_pushValue, String.toList_append, toList_pushText_of_plain plain]
  simp

theorem toList_pushEntries_cons {k : String} (plain : PlainText k) (v : Value)
    (e : String × Value) (rest : List (String × Value)) :
    (pushEntries "" ((k, v) :: e :: rest)).toList =
      '"' :: (k.toList ++ '"' :: ':' :: ' ' :: ((render v).toList ++
        ',' :: ' ' :: (pushEntries "" (e :: rest)).toList)) := by
  rw [pushEntries, toList_pushEntries, String.toList_append, toList_pushValue, String.toList_append,
    toList_pushText_of_plain plain]
  simp

/-! ### What is read -/

theorem skipBlanks_cons (visible : isBlank c = false) (cs : List Char) :
    skipBlanks (c :: cs) = c :: cs := by
  rw [skipBlanks, List.dropWhile_cons, visible]
  rfl

theorem skipBlanks_blank (cs : List Char) : skipBlanks (' ' :: cs) = skipBlanks cs := rfl

theorem textOr_of_plain (plain : PlainText s) (rest : List Char) :
    textOr (s.toList ++ '"' :: rest) = .ok (s, rest) := by
  rw [textOr, textFrom?_of_plain plain, List.reverse_nil, List.nil_append, text_of_plain plain]

/-- A value whose text is read back as this value, whatever follows it, with lists and objects lying
at most `depth` deep in it. The fuel that its own text gives is enough. -/
structure ReadBack (depth : Nat) (v : Value) : Prop where
  starts : ∃ c cs, (render v).toList = c :: cs ∧ isBlank c = false ∧ c ≠ ']'
  reads : ∀ fuel rest, (render v).toList.length ≤ fuel →
    value fuel depth ((render v).toList ++ rest) = .ok (v, rest)

variable {depth : Nat} {v : Value}

theorem ReadBack.value_eq (back : ReadBack depth v) {fuel : Nat}
    (enough : (render v).toList.length ≤ fuel) (rest : List Char) :
    value fuel depth (skipBlanks ((render v).toList ++ rest)) = .ok (v, rest) := by
  obtain ⟨c, cs, same, visible, -⟩ := back.starts
  have visible : skipBlanks ((render v).toList ++ rest) = (render v).toList ++ rest := by
    rw [same, List.cons_append, skipBlanks_cons visible]
  rw [visible, back.reads fuel rest enough]

theorem readBack_text (plain : PlainText s) : ReadBack depth (.text s) := by
  have shown : (render (.text s)).toList = '"' :: (s.toList ++ ['"']) :=
    toList_pushText_of_plain plain
  refine ⟨⟨_, _, shown, rfl, by decide⟩, fun fuel rest enough => ?_⟩
  rw [shown] at enough ⊢
  obtain ⟨fuel, rfl⟩ := Nat.exists_eq_add_of_le' (Nat.lt_of_lt_of_le (Nat.succ_pos _) enough)
  rw [List.cons_append, List.append_assoc, List.singleton_append]
  show (textOr (s.toList ++ '"' :: rest)).map _ = _
  rw [textOr_of_plain plain]
  rfl

theorem items_blank (fuel : Nat) (before : List Value) (cs : List Char) :
    items fuel depth before (' ' :: cs) = items fuel depth before cs := by
  cases fuel with
  | zero => rfl
  | succ fuel => rw [items, items, skipBlanks_blank]

theorem entries_blank (fuel : Nat) (before : List (String × Value)) (cs : List Char) :
    entries fuel depth before (' ' :: cs) = entries fuel depth before cs := by
  cases fuel with
  | zero => rfl
  | succ fuel => rw [entries, entries, skipBlanks_blank]

section Steps

variable {fuel : Nat} {rest : List Char} {before : List Value} {es : List (String × Value)}

theorem items_comma (read : value fuel depth (skipBlanks cs) = .ok (v, ',' :: ' ' :: rest)) :
    items (fuel + 1) depth before cs = items fuel depth (v :: before) rest := by
  rw [items, read, ← items_blank]
  rfl

theorem items_close (read : value fuel depth (skipBlanks cs) = .ok (v, ']' :: rest)) :
    items (fuel + 1) depth before cs = .ok (.list (before.reverse ++ [v]), rest) := by
  rw [items, read, ← List.reverse_cons]
  rfl

theorem entries_comma {k : String} (key : textOr cs = .ok (k, ':' :: ' ' :: cs'))
    (read : value fuel depth (skipBlanks cs') = .ok (v, ',' :: ' ' :: rest)) :
    entries (fuel + 1) depth es ('"' :: cs) = entries fuel depth (Value.put k v es) rest := by
  rw [entries, skipBlanks_cons (show isBlank '"' = false from rfl), ← entries_blank]
  simp only [key]
  rw [skipBlanks_cons (show isBlank ':' = false from rfl)]
  simp only [skipBlanks_blank, read]
  rfl

theorem entries_close {k : String} (key : textOr cs = .ok (k, ':' :: ' ' :: cs'))
    (read : value fuel depth (skipBlanks cs') = .ok (v, '\x7d' :: rest)) :
    entries (fuel + 1) depth es ('"' :: cs) = .ok (.object (Value.put k v es), rest) := by
  rw [entries, skipBlanks_cons (show isBlank '"' = false from rfl)]
  simp only [key]
  rw [skipBlanks_cons (show isBlank ':' = false from rfl)]
  simp only [skipBlanks_blank, read]
  rfl

/-- The items of a list are read behind those already read. -/
theorem items_of_readBack {xs : List Value} (some : xs ≠ []) (back : ∀ x ∈ xs, ReadBack depth x)
    (enough : (pushItems "" xs).toList.length < fuel) :
    items fuel depth before ((pushItems "" xs).toList ++ ']' :: rest) =
      .ok (.list (before.reverse ++ xs), rest) := by
  -- The last item is read in its own way, since nothing but the bracket follows it.
  induction xs generalizing fuel before with
  | nil => contradiction
  | cons x xs ih =>
    obtain ⟨first, others⟩ := List.forall_mem_cons.mp back
    obtain ⟨fuel, rfl⟩ := Nat.exists_eq_add_of_le' (Nat.lt_of_le_of_lt (Nat.zero_le _) enough)
    cases xs with
    | nil =>
      have shown : (pushItems "" [x]).toList = (render x).toList := rfl
      rw [shown] at enough ⊢
      exact items_close (first.value_eq (by omega) _)
    | cons y ys =>
      rw [toList_pushItems_cons] at enough ⊢
      simp only [List.length_append, List.length_cons] at enough
      rw [List.append_assoc, List.cons_append, List.cons_append,
        items_comma (first.value_eq (by omega) _), ih (List.cons_ne_nil y ys) others (by omega),
        List.reverse_cons, List.append_assoc, List.singleton_append]

/-- The entries of an object are read behind those already read. -/
theorem entries_of_readBack {new : List (String × Value)} (some : new ≠ [])
    (back : ∀ e ∈ new, PlainText e.1 ∧ ReadBack depth e.2)
    (distinct : ((es ++ new).map Prod.fst).Nodup)
    (enough : (pushEntries "" new).toList.length < fuel) :
    entries fuel depth es ((pushEntries "" new).toList ++ '\x7d' :: rest) =
      .ok (.object (es ++ new), rest) := by
  induction new generalizing fuel es with
  | nil => contradiction
  | cons e new ih =>
    obtain ⟨k, v⟩ := e
    obtain ⟨⟨plain, first⟩, others⟩ := List.forall_mem_cons.mp back
    dsimp only at plain first
    obtain ⟨fuel, rfl⟩ := Nat.exists_eq_add_of_le' (Nat.lt_of_le_of_lt (Nat.zero_le _) enough)
    have put : Value.put k v es = es ++ [(k, v)] := by
      refine Value.put_of_notMem (fun mem => ?_) v
      rw [List.map_append, List.nodup_append] at distinct
      exact distinct.2.2 k mem k List.mem_cons_self rfl
    cases new with
    | nil =>
      rw [toList_pushEntries_one plain] at enough ⊢
      simp only [List.length_append, List.length_cons] at enough
      simp only [List.cons_append, List.append_assoc]
      rw [entries_close (textOr_of_plain plain _) (first.value_eq (by omega) _), put]
    | cons y ys =>
      rw [toList_pushEntries_cons plain] at enough ⊢
      simp only [List.length_append, List.length_cons] at enough
      simp only [List.cons_append, List.append_assoc]
      rw [entries_comma (textOr_of_plain plain _) (first.value_eq (by omega) _), put,
        ih (List.cons_ne_nil y ys) others ?_ (by omega), List.append_assoc, List.singleton_append]
      rwa [List.append_assoc, List.singleton_append]

end Steps

/-! ### Plain values -/

/-- A value of which at most `depth` lists and objects lie inside one another, and which is written
as it stands: no number and no bytes, plain texts only, and no key twice. -/
inductive Plain : Nat → Value → Prop
  | null {depth : Nat} : Plain depth .null
  | flag {depth : Nat} (b : Bool) : Plain depth (.flag b)
  | text {depth : Nat} {s : String} (plain : PlainText s) : Plain depth (.text s)
  | list {depth : Nat} {xs : List Value} (items : ∀ x ∈ xs, Plain depth x) :
      Plain (depth + 1) (.list xs)
  | object {depth : Nat} {es : List (String × Value)} (keys : ∀ k ∈ es.map Prod.fst, PlainText k)
      (distinct : (es.map Prod.fst).Nodup) (values : ∀ v ∈ es.map Prod.snd, Plain depth v) :
      Plain (depth + 1) (.object es)

/-- A word that stands for a value. -/
theorem readBack_word {word : List Char} (shown : (render v).toList = c :: word)
    (visible : isBlank c = false) (notClose : c ≠ ']')
    (reads : ∀ fuel rest, value (fuel + 1) depth (c :: word ++ rest) = .ok (v, rest)) :
    ReadBack depth v := by
  refine ⟨⟨c, word, shown, visible, notClose⟩, fun fuel rest enough => ?_⟩
  rw [shown] at enough ⊢
  obtain ⟨fuel, rfl⟩ := Nat.exists_eq_add_of_le' (Nat.lt_of_lt_of_le (Nat.succ_pos _) enough)
  exact reads fuel rest

theorem starts_pushItems {x : Value} (back : ReadBack depth x) (xs : List Value) :
    ∃ c cs, (pushItems "" (x :: xs)).toList = c :: cs ∧ isBlank c = false ∧ c ≠ ']' := by
  obtain ⟨c, cs, shown, visible, notClose⟩ := back.starts
  cases xs with
  | nil => exact ⟨c, cs, shown, visible, notClose⟩
  | cons y ys =>
    rw [toList_pushItems_cons, shown]
    exact ⟨c, _, rfl, visible, notClose⟩

theorem value_list (fuel : Nat) (visible : isBlank c = false) (notClose : c ≠ ']') :
    value (fuel + 1) (depth + 1) ('[' :: c :: cs) = items fuel depth [] (c :: cs) := by
  rw [value.eq_def]
  simp only [skipBlanks_cons visible]
  split <;> simp_all

theorem readBack_list {xs : List Value} (back : ∀ x ∈ xs, ReadBack depth x) :
    ReadBack (depth + 1) (.list xs) := by
  have shown := toList_render_list xs
  refine ⟨⟨_, _, shown, rfl, by decide⟩, fun fuel rest enough => ?_⟩
  rw [shown] at enough ⊢
  simp only [List.length_cons, List.length_append] at enough
  obtain ⟨fuel, rfl⟩ := Nat.exists_eq_add_of_le' (Nat.lt_of_lt_of_le (Nat.succ_pos _) enough)
  rw [List.cons_append, List.append_assoc, List.singleton_append]
  cases xs with
  | nil => rfl
  | cons x xs =>
    have whole : items fuel depth [] _ = .ok (_, rest) :=
      items_of_readBack (List.cons_ne_nil x xs) back (by omega)
    obtain ⟨c, cs, starts, visible, notClose⟩ := starts_pushItems (back x List.mem_cons_self) xs
    rw [starts, List.cons_append] at whole ⊢
    rw [Nat.succ_eq_add_one, Nat.zero_add, value_list fuel visible notClose, whole]
    rfl

theorem readBack_object {es : List (String × Value)}
    (back : ∀ e ∈ es, PlainText e.1 ∧ ReadBack depth e.2) (distinct : (es.map Prod.fst).Nodup) :
    ReadBack (depth + 1) (.object es) := by
  have shown := toList_render_object es
  refine ⟨⟨_, _, shown, rfl, by decide⟩, fun fuel rest enough => ?_⟩
  rw [shown] at enough ⊢
  simp only [List.length_cons, List.length_append] at enough
  obtain ⟨fuel, rfl⟩ := Nat.exists_eq_add_of_le' (Nat.lt_of_lt_of_le (Nat.succ_pos _) enough)
  rw [List.cons_append, List.append_assoc, List.singleton_append]
  cases es with
  | nil => rfl
  | cons e es =>
    have whole : entries fuel depth [] _ = .ok (_, rest) :=
      entries_of_readBack (List.cons_ne_nil e es) back distinct (by omega)
    have starts : ∃ cs, (pushEntries "" (e :: es)).toList = '"' :: cs := by
      have plain := (back e List.mem_cons_self).1
      cases es with
      | nil => exact ⟨_, toList_pushEntries_one plain _⟩
      | cons f es => exact ⟨_, toList_pushEntries_cons plain _ f es⟩
    obtain ⟨cs, starts⟩ := starts
    rw [starts] at whole ⊢
    exact whole

/-- Plain values are read back. -/
theorem Plain.readBack (plain : Plain depth v) : ReadBack depth v := by
  induction plain with
  | null => exact readBack_word rfl rfl (by decide) fun _ _ => rfl
  | flag b =>
    cases b with
    | true =>
      have shown : (render (.flag true)).toList = ['t', 'r', 'u', 'e'] := by decide
      exact readBack_word shown rfl (by decide) fun _ _ => rfl
    | false =>
      have shown : (render (.flag false)).toList = ['f', 'a', 'l', 's', 'e'] := by decide
      exact readBack_word shown rfl (by decide) fun _ _ => rfl
  | text plain => exact readBack_text plain
  | list _ ih => exact readBack_list ih
  | object keys distinct _ ih =>
    exact readBack_object (fun e mem => ⟨keys e.1 (List.mem_map_of_mem mem),
      ih e.2 (List.mem_map_of_mem mem)⟩) distinct

/-- What is written of a plain value is read back. -/
theorem parse_render (plain : Plain depth v) : parse depth (render v) = .ok v := by
  have enough : (render v).toList.length ≤ 2 * (render v).toList.length + 2 := by omega
  have read := plain.readBack.value_eq enough []
  rw [List.append_nil] at read
  simp only [parse, read]
  rfl

end BeaconBranch.Json

namespace BeaconBranch

theorem Utf8.decode_toUTF8 (s : String) : decode s.toUTF8 = s := by
  have valid : String.fromUTF8? s.toUTF8 = some s := dif_pos s.isValidUTF8
  rw [decode, valid]

/-- The bytes that write a plain value are read as this value. -/
theorem Answer.json_documented {depth : Nat} {v : Value} (plain : Json.Plain depth v)
    (status : Int) : (documented depth status (Json.render v).toUTF8).json = .ok v := by
  rw [documented, Utf8.decode_toUTF8, Json.parse_render plain]

end BeaconBranch
