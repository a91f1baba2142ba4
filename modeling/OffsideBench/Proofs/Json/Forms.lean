import OffsideBench.Json.Form
import OffsideBench.Proofs.Json.Tokens

/-!
# Values of JSON read back

What a value is printed as is read in its form as that value, at every depth and in front of
everything that may follow a value. Each way to make a form of others keeps this: a list reads back
what its elements read back, and a record what its fields do, provided that these have names of
their own.

Main statements: `Form.Recovers`, and for each form the values that it recovers.
-/

namespace OffsideBench.Json

/-! ## Blanks -/

theorem skipBlanks_cons {c : Char} (h : isBlank c = false) (cs : List Char) :
    skipBlanks (c :: cs) = c :: cs := List.dropWhile_cons_of_neg (by simp [h])

theorem skipBlanks_newLine (depth : Nat) (cs : List Char) :
    skipBlanks (newLine depth ++ cs) = skipBlanks cs := by
  refine List.dropWhile_append_of_pos ?_
  intro c hc
  rcases List.mem_cons.1 hc with rfl | hc
  · rfl
  · rw [List.eq_of_mem_replicate hc]
    rfl

/-- A value is read in a form as it is printed, at any depth and behind any blanks, in front of
everything that may follow it. -/
structure Form.Recovers (f : Form) (v : Value) : Prop where
  /-- Its text starts with what is neither a blank nor the end of a list. -/
  starts : ∀ depth, ∃ c cs, v.print depth = c :: cs ∧ isBlank c = false ∧ c ≠ ']'
  read : ∀ depth {cs rest}, skipBlanks cs = v.print depth ++ rest → Ends rest →
    f.read cs = .ok (v, rest)

theorem Form.Recovers.skipBlanks {f : Form} {v : Value} (h : f.Recovers v) (depth : Nat)
    (rest : List Char) : skipBlanks (v.print depth ++ rest) = v.print depth ++ rest := by
  obtain ⟨c, cs, hc, hblank, -⟩ := h.starts depth
  rw [hc]
  exact skipBlanks_cons hblank _

/-! ## Values without parts -/

section Simple

variable {cs rest : List Char}

theorem readString_quote {s : String} (h : skipBlanks cs = quote s ++ rest) :
    readString cs = .ok (s, rest) := by
  rw [readString, h, quote]
  show string ((s.toList.flatMap escapeChar ++ ['"']) ++ rest) = _
  rw [List.append_assoc]
  exact string_quote s rest

theorem isBlank_of_isRealPart {c : Char} (h : isRealPart c = true) :
    isBlank c = false ∧ c ≠ ']' := by
  constructor
  · by_contra hb
    simp only [isBlank, Bool.not_eq_false, Bool.or_eq_true, beq_iff_eq] at hb
    rcases hb with ((rfl | rfl) | rfl) | rfl <;> cases h
  · rintro rfl
    cases h

/-- What is read as a number starts as numbers do. -/
theorem startsNumber_of_number {n : Number} {c : Char} (h : number (c :: cs) = .ok (n, rest)) :
    startsNumber c = true := by
  by_cases hminus : c = '-'
  · subst hminus
    rfl
  unfold number at h
  split at h
  · cases h
  rename_i m tail hnumeral
  unfold numeral at hnumeral
  split at hnumeral
  · rename_i hcons
    exact absurd (List.cons.inj hcons).1 hminus
  unfold unsigned at hnumeral
  split at hnumeral
  · cases hnumeral
  rename_i whole tail' hwhole
  obtain ⟨hne, htake, -⟩ := digits_eq_ok_iff.1 (wholeDigits_eq_ok_iff.1 hwhole).1
  by_cases hc : c.isDigit = true
  · simp [startsNumber, hc]
  · rw [List.takeWhile_cons_of_neg hc] at htake
    exact absurd htake.symm hne

/-- A number that reads back alone reads back in front of what may follow it. -/
theorem readNumber_append {n : Number} {text : List Char} (h : number text = .ok (n, []))
    (hcs : skipBlanks cs = text ++ rest) (hrest : Ends rest) : readNumber cs = .ok (n, rest) := by
  cases text with
  | nil => cases h
  | cons c text =>
    rw [readNumber, hcs]
    show (if startsNumber c then number (c :: text ++ rest) else _) = _
    rw [if_pos (startsNumber_of_number h), number_append hrest h]
    rfl

end Simple

namespace Form

variable {v : Value}

theorem recovers_text (s : String) : Form.text.Recovers (.text s) where
  starts _ := ⟨'"', _, rfl, rfl, by decide⟩
  read _ _ _ h _ := by
    show (readString _).map _ = _
    rw [readString_quote h]
    rfl

theorem recovers_word {limit : Nat} {n : UInt64} (h : n.toNat < limit) :
    (Form.wordBelow limit).Recovers (.word n) where
  starts _ := by
    obtain ⟨c, cs, hcs⟩ := List.exists_cons_of_ne_nil (Nat.toDigits_ne_nil (b := 10) (n := n.toNat))
    have hc : c.isDigit = true := Decimal.isDigit_of_mem_toDigits (hcs ▸ List.mem_cons_self)
    exact ⟨c, cs, hcs, isBlank_of_isRealPart (isRealPart_of_isDigit hc)⟩
  read _ _ _ hcs hrest := by
    simp only [wordBelow]
    rw [readNumber_append (number_toDigits n) hcs hrest]
    exact if_pos h

/-- A finite number is recovered if it is read back from its own text. -/
theorem recovers_real {x : Binary64} (hfinite : x.isFinite = true)
    (h : number (Json.real x) = .ok (.real x, [])) : Form.real.Recovers (.real x) := by
  have hprint : ∀ depth, (Value.real x).print depth = Json.real x := fun _ => if_pos hfinite
  refine ⟨?_, ?_⟩
  · intro depth
    rw [hprint]
    have hparts := isRealPart_real x
    cases hx : Json.real x with
    | nil =>
      rw [hx] at h
      cases h
    | cons c cs =>
      rw [hx] at hparts
      exact ⟨c, cs, rfl, isBlank_of_isRealPart (hparts c List.mem_cons_self)⟩
  · intro depth cs rest hcs hrest
    rw [hprint] at hcs
    simp only [Form.real]
    rw [readNumber_append h hcs hrest]

theorem recovers_null (f : Form) : (optional f).Recovers .null where
  starts _ := ⟨'n', _, rfl, rfl, by decide⟩
  read _ _ _ hcs _ := by
    simp only [optional, hcs]
    rfl

theorem recovers_optional {f : Form} (h : f.Recovers v)
    (hn : ∀ depth, (v.print depth).head? ≠ some 'n') : (optional f).Recovers v where
  starts := h.starts
  read depth cs rest hcs hrest := by
    have hread := h.read depth hcs hrest
    obtain ⟨c, tail, hc, -⟩ := h.starts depth
    have hne : c ≠ 'n' := by
      rintro rfl
      exact hn depth (by rw [hc]; rfl)
    simp only [optional]
    rw [hcs, hc]
    split
    · rename_i he
      exact absurd (List.cons.inj he).1 hne
    · exact hread

theorem recovers_choice {names : List String} {name : String} (h : name ∈ names) :
    (choice names).Recovers (.text name) where
  starts _ := ⟨'"', _, rfl, rfl, by decide⟩
  read _ cs rest hcs _ := by
    have hname : readName names cs = .ok (name, rest) := by
      rw [readName, readString_quote hcs]
      exact if_pos h
    simp only [choice]
    rw [hcs]
    show (readName names cs).map _ = _
    rw [hname]
    rfl

end Form

/-! ## Items between brackets -/

/-- What follows the first of some items between brackets: the others and the closing bracket. -/
def follow (closing : Char) (depth : Nat) (items : List (List Char)) : List Char :=
  items.flatMap (fun i => ',' :: newLine (depth + 1) ++ i) ++ newLine depth ++ [closing]

section Follow

variable {closing : Char} {depth : Nat} {item : List Char} {items : List (List Char)}

theorem enclose_cons (opening closing : Char) (depth : Nat) (item : List Char)
    (items : List (List Char)) : enclose opening closing depth (item :: items) =
      opening :: (newLine (depth + 1) ++ (item ++ follow closing depth items)) := by
  simp [enclose, follow]

theorem skipBlanks_follow_nil (h : isBlank closing = false) (rest : List Char) :
    skipBlanks (follow closing depth [] ++ rest) = closing :: rest := by
  show skipBlanks ((newLine depth ++ [closing]) ++ rest) = _
  rw [List.append_assoc, skipBlanks_newLine]
  exact skipBlanks_cons h rest

theorem follow_cons (rest : List Char) : follow closing depth (item :: items) ++ rest =
    ',' :: (newLine (depth + 1) ++ (item ++ (follow closing depth items ++ rest))) := by
  simp [follow]

theorem ends_follow (rest : List Char) : Ends (follow closing depth items ++ rest) := by
  cases items with
  | nil =>
    rintro c ⟨⟩
    exact .inl rfl
  | cons item items =>
    rintro c ⟨⟩
    exact .inr List.mem_cons_self

end Follow

/-! ## Lists -/

theorem Value.printElements_eq (depth : Nat) (vs : List Value) :
    printElements depth vs = vs.map (print depth) := by
  induction vs with
  | nil => rfl
  | cons v vs ih => rw [printElements, ih, List.map_cons]

namespace Form

variable {f : Form} {v : Value} {vs : List Value} {cs behind rest : List Char}

/-- What stands behind an element says whether there are more. -/
theorem elements_of_read (h : f.read cs = .ok (v, behind)) :
    elements f cs =
      match skipBlanks behind with
      | [] => .error .incomplete
      | c :: rest =>
        if c = ']' then .ok ([v], rest)
        else if c = ',' then (elements f rest).map fun p => (v :: p.1, p.2)
        else .error .malformed := by
  rw [elements]
  split
  · rename_i he
    rw [h] at he
    cases he
  · rename_i hv
    rw [h] at hv
    cases hv
    split
    · rename_i hnil
      simp only [hnil]
    · rename_i hcons
      simp only [hcons]

/-- Elements are read as they are printed. -/
theorem elements_print (hv : f.Recovers v) (hvs : ∀ w ∈ vs, f.Recovers w) {depth : Nat}
    (hcs : skipBlanks cs = v.print (depth + 1) ++
      (follow ']' depth (vs.map (Value.print (depth + 1))) ++ rest)) :
    elements f cs = .ok (v :: vs, rest) := by
  induction vs generalizing v cs with
  | nil =>
    have hread := hv.read (depth + 1) hcs (ends_follow rest)
    rw [elements_of_read hread, List.map_nil, skipBlanks_follow_nil rfl]
    exact if_pos rfl
  | cons w ws ih =>
    have hread := hv.read (depth + 1) hcs (ends_follow rest)
    obtain ⟨hw, hws⟩ := List.forall_mem_cons.1 hvs
    have hskip : skipBlanks (newLine (depth + 1) ++ (w.print (depth + 1) ++
        (follow ']' depth (ws.map (Value.print (depth + 1))) ++ rest))) =
          w.print (depth + 1) ++
            (follow ']' depth (ws.map (Value.print (depth + 1))) ++ rest) := by
      rw [skipBlanks_newLine, hw.skipBlanks]
    rw [elements_of_read hread, List.map_cons, follow_cons, skipBlanks_cons rfl]
    show (elements f _).map _ = _
    rw [ih hw hws hskip]
    rfl

theorem readList_print (hv : f.Recovers v) (hvs : ∀ w ∈ vs, f.Recovers w) (depth : Nat)
    (rest : List Char) :
    readList f (newLine (depth + 1) ++ (v.print (depth + 1) ++
      (follow ']' depth (vs.map (Value.print (depth + 1))) ++ rest))) = .ok (v :: vs, rest) := by
  have hskip := hv.skipBlanks (depth + 1)
    (follow ']' depth (vs.map (Value.print (depth + 1))) ++ rest)
  have helements := elements_print hv hvs hskip
  obtain ⟨c, cs, hc, -, hne⟩ := hv.starts (depth + 1)
  rw [readList, skipBlanks_newLine, hskip]
  rw [hc] at helements ⊢
  exact (if_neg hne).trans helements

theorem recovers_list (h : ∀ v ∈ vs, f.Recovers v) : (Form.list f).Recovers (.list vs) where
  starts depth := by
    rw [Value.print, Value.printElements_eq]
    cases vs with
    | nil => exact ⟨'[', _, rfl, rfl, by decide⟩
    | cons v vs => exact ⟨'[', _, enclose_cons .., rfl, by decide⟩
  read depth cs rest hcs _ := by
    rw [Value.print, Value.printElements_eq] at hcs
    simp only [Form.list]
    cases vs with
    | nil =>
      rw [hcs]
      rfl
    | cons v vs =>
      obtain ⟨hv, hvs⟩ := List.forall_mem_cons.1 h
      rw [List.map_cons, enclose_cons, List.cons_append, List.append_assoc,
        List.append_assoc] at hcs
      rw [hcs]
      simp only [readList_print hv hvs]
      rfl

end Form

/-! ## Records -/

/-- The text of a field. -/
def fieldText (depth : Nat) (p : String × Value) : List Char :=
  quote p.1 ++ ':' :: ' ' :: p.2.print depth

theorem Value.printFields_eq (depth : Nat) (ps : List (String × Value)) :
    printFields depth ps = ps.map (fieldText depth) := by
  induction ps with
  | nil => rfl
  | cons p ps ih =>
    rw [printFields, ih, List.map_cons]
    rfl

/-- A field of a record recovers a value that is written under its name. -/
def Field.Recovers (field : Field) (p : String × Value) : Prop :=
  p.1 = field.name ∧ field.form.Recovers p.2

theorem Field.map_names {fs : List Field} {ps : List (String × Value)}
    (h : List.Forall₂ Field.Recovers fs ps) : ps.map Prod.fst = fs.map Field.name := by
  induction h with
  | nil => rfl
  | cons hp _ ih => rw [List.map_cons, List.map_cons, ih, hp.1]

/-- A field with a name of its own is found by it. -/
theorem find?_of_mem {fs : List Field} (hnames : (fs.map Field.name).Nodup) {field : Field}
    (hfield : field ∈ fs) : fs.find? (·.name = field.name) = some field := by
  induction fs with
  | nil => cases hfield
  | cons g fs ih =>
    rw [List.map_cons, List.nodup_cons] at hnames
    rcases List.mem_cons.1 hfield with rfl | hfield
    · exact List.find?_cons_of_pos (by simp)
    · have hne : g.name ≠ field.name := fun heq => hnames.1 (heq ▸ List.mem_map_of_mem hfield)
      rw [List.find?_cons_of_neg (by simpa using hne)]
      exact ih hnames.2 hfield

/-- A value with a name of its own is found by it. -/
theorem lookup_of_mem {ps : List (String × Value)} (hnames : (ps.map Prod.fst).Nodup)
    {p : String × Value} (hp : p ∈ ps) : ps.lookup p.1 = some p.2 := by
  induction ps with
  | nil => cases hp
  | cons q ps ih =>
    rw [List.map_cons, List.nodup_cons] at hnames
    rcases List.mem_cons.1 hp with rfl | hp
    · exact List.lookup_cons_self
    · have hne : (p.1 == q.1) = false := by
        refine beq_eq_false_iff_ne.2 ?_
        intro heq
        exact hnames.1 (heq ▸ List.mem_map_of_mem hp)
      rw [List.lookup_cons, hne]
      exact ih hnames.2 hp

namespace Form

variable {fields fs : List Field} {field : Field} {seen seen' ps : List (String × Value)}
  {p : String × Value} {cs behind rest : List Char}

/-- A field is read as it is printed. -/
theorem readField_print (hfind : fields.find? (·.name = field.name) = some field)
    (hseen : seen.lookup field.name = none) (hp : field.Recovers p) {depth : Nat}
    (hcs : skipBlanks cs = fieldText depth p ++ rest) (hrest : Ends rest) :
    readField fields seen cs = .ok (p :: seen, rest) := by
  obtain ⟨name, v⟩ := p
  obtain ⟨rfl, hv⟩ := hp
  have htext : skipBlanks cs = '"' :: (field.name.toList.flatMap escapeChar ++
      '"' :: (':' :: ' ' :: (v.print depth ++ rest))) := by
    rw [hcs]
    simp [fieldText, quote]
  have hcolon : colon (':' :: ' ' :: (v.print depth ++ rest)) =
      .ok (' ' :: (v.print depth ++ rest)) := by
    rw [colon, skipBlanks_cons rfl]
    rfl
  have hskip : skipBlanks (' ' :: (v.print depth ++ rest)) = v.print depth ++ rest :=
    hv.skipBlanks depth rest
  have hread := hv.read depth hskip hrest
  rw [readField, htext]
  simp only [ne_eq, not_true, if_false, string_quote, hfind, hseen, hcolon, hread]
  rfl

/-- What stands behind a field says whether there are more. -/
theorem readFields_of_readField (h : readField fields seen cs = .ok (seen', behind)) :
    readFields fields seen cs =
      match skipBlanks behind with
      | [] => .error .incomplete
      | c :: rest =>
        if c = '}' then .ok (seen', rest)
        else if c = ',' then readFields fields seen' rest
        else .error .malformed := by
  rw [readFields]
  split
  · rename_i he
    rw [h] at he
    cases he
  · rename_i hv
    rw [h] at hv
    cases hv
    split
    · rename_i hnil
      simp only [hnil]
    · rename_i hcons
      simp only [hcons]

/-- Fields are read as they are printed, and each is put in front of those read before it. -/
theorem readFields_print (hps : List.Forall₂ Field.Recovers fs ps)
    (hfind : ∀ g ∈ field :: fs, fields.find? (·.name = g.name) = some g)
    (hnames : ((field :: fs).map Field.name).Nodup)
    (hseen : ∀ g ∈ field :: fs, seen.lookup g.name = none) (hp : field.Recovers p) {depth : Nat}
    (hcs : skipBlanks cs = fieldText (depth + 1) p ++
      (follow '}' depth (ps.map (fieldText (depth + 1))) ++ rest)) :
    readFields fields seen cs = .ok ((p :: ps).reverse ++ seen, rest) := by
  induction hps generalizing field p seen cs with
  | nil =>
    have hread := readField_print (hfind field List.mem_cons_self) (hseen field List.mem_cons_self)
      hp hcs (ends_follow rest)
    rw [readFields_of_readField hread, List.map_nil, skipBlanks_follow_nil rfl]
    exact if_pos rfl
  | @cons g q fs ps hq _ ih =>
    have hread := readField_print (hfind field List.mem_cons_self) (hseen field List.mem_cons_self)
      hp hcs (ends_follow rest)
    have hskip : skipBlanks (newLine (depth + 1) ++ (fieldText (depth + 1) q ++
        (follow '}' depth (ps.map (fieldText (depth + 1))) ++ rest))) =
          fieldText (depth + 1) q ++
            (follow '}' depth (ps.map (fieldText (depth + 1))) ++ rest) := by
      rw [skipBlanks_newLine]
      exact skipBlanks_cons rfl _
    rw [List.map_cons, List.nodup_cons] at hnames
    -- the field that was read bears none of the names that follow
    have hseen' : ∀ g' ∈ g :: fs, (p :: seen).lookup g'.name = none := by
      intro g' hg'
      have hne : (g'.name == p.1) = false := by
        refine beq_eq_false_iff_ne.2 ?_
        intro heq
        exact hnames.1 (hp.1 ▸ heq ▸ List.mem_map_of_mem hg')
      rw [List.lookup_cons, hne]
      exact hseen g' (List.mem_cons_of_mem _ hg')
    have hlater := ih (fun g' hg' => hfind g' (List.mem_cons_of_mem _ hg')) hnames.2 hseen' hq hskip
    rw [readFields_of_readField hread, List.map_cons, follow_cons, skipBlanks_cons rfl]
    refine hlater.trans ?_
    simp

theorem readRecord_print (hps : List.Forall₂ Field.Recovers fs ps)
    (hnames : ((field :: fs).map Field.name).Nodup) (hp : field.Recovers p) (depth : Nat)
    (rest : List Char) :
    readRecord (field :: fs) (newLine (depth + 1) ++ (fieldText (depth + 1) p ++
      (follow '}' depth (ps.map (fieldText (depth + 1))) ++ rest))) =
        .ok ((p :: ps).reverse, rest) := by
  have hskip : skipBlanks (fieldText (depth + 1) p ++
      (follow '}' depth (ps.map (fieldText (depth + 1))) ++ rest)) =
        fieldText (depth + 1) p ++
          (follow '}' depth (ps.map (fieldText (depth + 1))) ++ rest) := skipBlanks_cons rfl _
  have hnew : ∀ g ∈ field :: fs, ([] : List (String × Value)).lookup g.name = none := fun _ _ => rfl
  have hfields := readFields_print hps (fun g hg => find?_of_mem hnames hg) hnames hnew hp hskip
  rw [List.append_nil] at hfields
  rw [readRecord, skipBlanks_newLine, hskip]
  exact hfields

theorem mapM_value? (h : List.Forall₂ Field.Recovers fs ps)
    (hseen : ∀ p ∈ ps, seen.lookup p.1 = some p.2) : fs.mapM (Field.value? seen) = some ps := by
  induction h with
  | nil => rfl
  | @cons g p fs ps hp _ ih =>
    obtain ⟨hfirst, hlater⟩ := List.forall_mem_cons.1 hseen
    have hvalue : Field.value? seen g = some p := by
      rw [Field.value?, ← hp.1, hfirst]
      rfl
    rw [List.mapM_cons, hvalue, ih hlater]
    rfl

/-- A record is recovered if its fields have names of their own and recover their values. -/
theorem recovers_record (hnames : (fields.map Field.name).Nodup)
    (h : List.Forall₂ Field.Recovers fields ps) : (Form.record fields).Recovers (.record ps) where
  starts depth := by
    rw [Value.print, Value.printFields_eq]
    cases ps with
    | nil => exact ⟨'{', _, rfl, rfl, by decide⟩
    | cons p ps => exact ⟨'{', _, enclose_cons .., rfl, by decide⟩
  read depth cs rest hcs _ := by
    rw [Value.print, Value.printFields_eq] at hcs
    have hassemble : assemble fields ps.reverse = .ok (.record ps) := by
      have hlookup : ∀ p ∈ ps, ps.reverse.lookup p.1 = some p.2 := by
        intro p hp
        refine lookup_of_mem ?_ (List.mem_reverse.2 hp)
        rw [List.map_reverse, (List.reverse_perm _).nodup_iff, Field.map_names h]
        exact hnames
      rw [assemble, mapM_value? h hlookup]
    simp only [Form.record]
    cases h with
    | nil =>
      rw [hcs]
      rfl
    | cons hp hps =>
      rw [List.map_cons, enclose_cons, List.cons_append, List.append_assoc,
        List.append_assoc] at hcs
      rw [hcs]
      simp only [readRecord_print hps hnames hp, hassemble]
      rfl

/-! ## Whole texts -/

/-- A text that is one printed value is read as that value. -/
theorem Recovers.parse {f : Form} {v : Value} (h : f.Recovers v) : f.parse (v.print 0) = .ok v := by
  have hskip := h.skipBlanks 0 []
  rw [List.append_nil] at hskip
  have hread : f.read (v.print 0) = .ok (v, []) :=
    h.read 0 (hskip.trans (List.append_nil _).symm) (by simp [Ends])
  rw [Form.parse, hread]
  exact if_pos rfl

end Form

end OffsideBench.Json
