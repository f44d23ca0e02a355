import LineShell.Line.Word

/-!
How a line spells its words. A spelling is a sequence of items of which only the last may
be unfinished; every line has exactly one, and the words of the line are the values of the
groups of items between blanks, those that come out empty left out.
-/

namespace LineShell.Line

/-- The characters that stand for themselves outside quotes. -/
def isPlain (c : Char) : Bool :=
  c != '\'' && c != '"' && c != '\\' && !separates c

inductive Piece
  | plain (c : Char) (h : c ≠ '"' ∧ c ≠ '\\')
  | escape (c : Char) (h : escapable c = true)
  /-- A backslash that means itself, and the character behind it. -/
  | kept (c : Char) (h : escapable c = false)

namespace Piece

def text : Piece → List Char
  | .plain c _ => [c]
  | .escape c _ | .kept c _ => ['\\', c]

def value : Piece → List Char
  | .plain c _ | .escape c _ => [c]
  | .kept c _ => ['\\', c]

end Piece

/-- An item of a line that is complete in itself. -/
inductive Item
  | blank (c : Char) (h : separates c = true)
  | plain (c : Char) (h : isPlain c = true)
  | escape (c : Char)
  | single (body : List Char) (h : '\'' ∉ body)
  | double (body : List Piece)

namespace Item

def text : Item → List Char
  | .blank c _ | .plain c _ => [c]
  | .escape c => ['\\', c]
  | .single body _ => '\'' :: body ++ ['\'']
  | .double body => '"' :: body.flatMap Piece.text ++ ['"']

/-- What an item adds to the word it stands in, none for a blank, which stands in none. -/
def value? : Item → Option (List Char)
  | .blank _ _ => none
  | .plain c _ | .escape c => some [c]
  | .single body _ => some body
  | .double body => some (body.flatMap Piece.value)

end Item

/-- An item that the end of the line cuts off. -/
inductive Tail
  | single (body : List Char) (h : '\'' ∉ body)
  /-- An open double quotation, in which a lone backslash may come last. -/
  | double (body : List Piece) (lone : Bool)
  | backslash

namespace Tail

def text : Tail → List Char
  | .single body _ => '\'' :: body
  | .double body lone => '"' :: body.flatMap Piece.text ++ if lone then ['\\'] else []
  | .backslash => ['\\']

def value : Tail → List Char
  | .single body _ => body
  | .double body lone => body.flatMap Piece.value ++ if lone then ['\\'] else []
  | .backslash => ['\\']

end Tail

/-- The items of a line, the last of which may be unfinished. -/
structure Spelling where
  items : List Item
  tail : Option Tail

namespace Spelling

def text (s : Spelling) : List Char :=
  s.items.flatMap Item.text ++ s.tail.elim [] Tail.text

def values (s : Spelling) : List (Option (List Char)) :=
  s.items.map Item.value? ++ s.tail.toList.map fun t => some t.value

/-- The values of the longest groups of items without a blank between them. -/
def groups (s : Spelling) : List (List Char) :=
  (s.values.splitOnP Option.isNone).map fun group => group.flatMap (·.getD [])

@[simp] theorem values_nil (tail : Option Tail) :
    values ⟨[], tail⟩ = tail.toList.map fun t => some t.value := rfl

end Spelling

/-! Every line has a spelling -/

/-- What may follow the body of a single quotation: the end of the line or the closing
quote. -/
def EndsBody (r : List Char) : Prop :=
  r = [] ∨ ∃ later, r = '\'' :: later

theorem exists_body (r : List Char) :
    ∃ body later : List Char, r = body ++ later ∧ '\'' ∉ body ∧ EndsBody later := by
  induction r with
  | nil => exact ⟨[], [], rfl, List.not_mem_nil, .inl rfl⟩
  | cons c r ih =>
      by_cases hc : c = '\''
      · exact ⟨[], c :: r, rfl, List.not_mem_nil, .inr ⟨r, by rw [hc]⟩⟩
      · obtain ⟨body, later, rfl, hb, hl⟩ := ih
        exact ⟨c :: body, later, rfl, by simp [hb, Ne.symm hc], hl⟩

/-- What may follow the pieces of a double quotation: the end of the line, before it a lone
backslash perhaps, or the closing quote. -/
def EndsPieces (r : List Char) : Prop :=
  r = [] ∨ r = ['\\'] ∨ ∃ later, r = '"' :: later

theorem exists_pieces (r : List Char) :
    ∃ (body : List Piece) (later : List Char),
      r = body.flatMap Piece.text ++ later ∧ EndsPieces later := by
  match r with
  | [] => exact ⟨[], [], rfl, .inl rfl⟩
  | [c] =>
      by_cases hq : c = '"'
      · exact ⟨[], [c], rfl, .inr (.inr ⟨[], by rw [hq]⟩)⟩
      · by_cases hs : c = '\\'
        · exact ⟨[], [c], rfl, .inr (.inl (by rw [hs]))⟩
        · exact ⟨[.plain c ⟨hq, hs⟩], [], rfl, .inl rfl⟩
  | c :: d :: r =>
      by_cases hq : c = '"'
      · exact ⟨[], c :: d :: r, rfl, .inr (.inr ⟨d :: r, by rw [hq]⟩)⟩
      · by_cases hs : c = '\\'
        · obtain ⟨body, later, rfl, hl⟩ := exists_pieces r
          subst hs
          cases hd : escapable d with
          | true => exact ⟨.escape d hd :: body, later, rfl, hl⟩
          | false => exact ⟨.kept d hd :: body, later, rfl, hl⟩
        · obtain ⟨body, later, hr, hl⟩ := exists_pieces (d :: r)
          exact ⟨.plain c ⟨hq, hs⟩ :: body, later, by simp [Piece.text, hr], hl⟩

namespace Spelling

def cons (i : Item) (s : Spelling) : Spelling :=
  { s with items := i :: s.items }

@[simp] theorem text_cons (i : Item) (s : Spelling) : (cons i s).text = i.text ++ s.text := by
  simp [cons, text]

theorem exists_text (r : List Char) : ∃ s : Spelling, s.text = r := by
  match r with
  | [] => exact ⟨⟨[], none⟩, rfl⟩
  | c :: r =>
      -- The first character tells what the first item is. Behind a quotation the line is
      -- shorter, by how much depends on where the quotation ends.
      by_cases hsq : c = '\''
      · subst hsq
        obtain ⟨body, later, hr, hb, rfl | ⟨later, rfl⟩⟩ := exists_body r
        · exact ⟨⟨[], some (.single body hb)⟩, by simp [text, Tail.text, hr]⟩
        · have hlen : later.length < r.length + 1 := by simp [hr]; omega
          obtain ⟨s, rfl⟩ := exists_text later
          exact ⟨s.cons (.single body hb), by simp [Item.text, hr]⟩
      by_cases hdq : c = '"'
      · subst hdq
        obtain ⟨body, later, hr, hl⟩ := exists_pieces r
        obtain rfl | rfl | ⟨later, rfl⟩ := hl
        · exact ⟨⟨[], some (.double body false)⟩, by simp [text, Tail.text, hr]⟩
        · exact ⟨⟨[], some (.double body true)⟩, by simp [text, Tail.text, hr]⟩
        · have hlen : later.length < r.length + 1 := by simp [hr]; omega
          obtain ⟨s, rfl⟩ := exists_text later
          exact ⟨s.cons (.double body), by simp [Item.text, hr]⟩
      by_cases hbs : c = '\\'
      · subst hbs
        cases r with
        | nil => exact ⟨⟨[], some .backslash⟩, rfl⟩
        | cons d r =>
            obtain ⟨s, rfl⟩ := exists_text r
            exact ⟨s.cons (.escape d), text_cons _ _⟩
      obtain ⟨s, rfl⟩ := exists_text r
      cases hb : separates c with
      | true => exact ⟨s.cons (.blank c hb), text_cons _ _⟩
      | false => exact ⟨s.cons (.plain c (by simp [isPlain, *])), text_cons _ _⟩
termination_by r.length

end Spelling

/-! No line has two spellings -/

theorem Piece.text_append_inj {p q : Piece} {r r' : List Char}
    (h : p.text ++ r = q.text ++ r') : p = q ∧ r = r' := by
  cases p with
  | plain c hc =>
      cases q with
      | plain d _ =>
          obtain ⟨rfl, rfl⟩ := List.cons.inj h
          exact ⟨rfl, rfl⟩
      | escape _ _ | kept _ _ => exact absurd (List.cons.inj h).1 hc.2
  | escape c hc | kept c hc =>
      cases q with
      | plain d hd => exact absurd (List.cons.inj h).1.symm hd.2
      | escape d hd | kept d hd =>
          obtain ⟨rfl, rfl⟩ := List.cons.inj (List.cons.inj h).2
          first | exact ⟨rfl, rfl⟩ | exact absurd (hc.symm.trans hd) (by decide)

theorem not_endsPieces_text (p : Piece) (r : List Char) : ¬EndsPieces (p.text ++ r) := by
  cases p with
  | plain c hc => simp [Piece.text, EndsPieces, hc.1, hc.2]
  | escape c _ | kept c _ => simp [Piece.text, EndsPieces]

theorem pieces_inj {body body' : List Piece} {later later' : List Char}
    (hl : EndsPieces later) (hl' : EndsPieces later')
    (h : body.flatMap Piece.text ++ later = body'.flatMap Piece.text ++ later') :
    body = body' ∧ later = later' := by
  induction body generalizing body' with
  | nil =>
      cases body' with
      | nil => exact ⟨rfl, h⟩
      | cons q body' =>
          rw [List.flatMap_nil, List.nil_append, List.flatMap_cons, List.append_assoc] at h
          exact absurd hl (h ▸ not_endsPieces_text q _)
  | cons p body ih =>
      rw [List.flatMap_cons, List.append_assoc] at h
      cases body' with
      | nil =>
          rw [List.flatMap_nil, List.nil_append] at h
          exact absurd hl' (h ▸ not_endsPieces_text p _)
      | cons q body' =>
          rw [List.flatMap_cons, List.append_assoc] at h
          obtain ⟨rfl, hrest⟩ := Piece.text_append_inj h
          obtain ⟨rfl, rfl⟩ := ih hrest
          exact ⟨rfl, rfl⟩

theorem body_inj {body body' later later' : List Char} (hb : '\'' ∉ body) (hb' : '\'' ∉ body')
    (hl : EndsBody later) (hl' : EndsBody later') (h : body ++ later = body' ++ later') :
    body = body' ∧ later = later' := by
  -- What follows one body cannot begin within the other, for it begins with a quote.
  have none_within {c : Char} {r : List Char} (hc : '\'' ∉ c :: r) (x : List Char) :
      ¬EndsBody (c :: x) := by
    rintro (hx | ⟨y, hx⟩)
    · cases hx
    · exact hc (by rw [(List.cons.inj hx).1]; exact List.mem_cons_self)
  induction body generalizing body' with
  | nil =>
      cases body' with
      | nil => exact ⟨rfl, h⟩
      | cons d body' =>
          rw [List.nil_append] at h
          exact absurd hl (h ▸ none_within hb' _)
  | cons c body ih =>
      cases body' with
      | nil =>
          rw [List.nil_append] at h
          exact absurd hl' (h ▸ none_within hb _)
      | cons d body' =>
          obtain ⟨rfl, hrest⟩ := List.cons.inj h
          obtain ⟨rfl, rfl⟩ := ih (fun m => hb (List.mem_cons_of_mem _ m))
            (fun m => hb' (List.mem_cons_of_mem _ m)) hrest
          exact ⟨rfl, rfl⟩

theorem endsPieces_lone (lone : Bool) : EndsPieces (if lone then ['\\'] else []) := by
  cases lone with
  | true => exact .inr (.inl rfl)
  | false => exact .inl rfl

theorem ne_of_separates {c : Char} (h : separates c = true) :
    c ≠ '\'' ∧ c ≠ '"' ∧ c ≠ '\\' ∧ isPlain c = false := by
  refine ⟨?_, ?_, ?_, by simp [isPlain, h]⟩ <;> rintro rfl <;> exact absurd h (by decide)

theorem ne_of_isPlain {c : Char} (h : isPlain c = true) : c ≠ '\'' ∧ c ≠ '"' ∧ c ≠ '\\' := by
  refine ⟨?_, ?_, ?_⟩ <;> rintro rfl <;> exact absurd h (by decide)

/-- The first characters tell items of different kinds apart, the closing quotes those of
one kind. -/
theorem Item.text_append_inj {i j : Item} {r r' : List Char}
    (h : i.text ++ r = j.text ++ r') : i = j ∧ r = r' := by
  have hs := @ne_of_separates
  have hp := @ne_of_isPlain
  cases i with
  | blank c hc | plain c hc | escape c =>
      cases j <;> grind [Item.text]
  | single body hb =>
      cases j with
      | single body' hb' =>
          simp only [text, List.cons_append, List.append_assoc, List.cons.injEq, true_and] at h
          obtain ⟨rfl, hrest⟩ := body_inj hb hb' (.inr ⟨_, rfl⟩) (.inr ⟨_, rfl⟩) h
          exact ⟨rfl, (List.cons.inj hrest).2⟩
      | _ => grind [Item.text]
  | double body =>
      cases j with
      | double body' =>
          simp only [text, List.cons_append, List.append_assoc, List.cons.injEq, true_and] at h
          obtain ⟨rfl, hrest⟩ := pieces_inj (.inr (.inr ⟨_, rfl⟩)) (.inr (.inr ⟨_, rfl⟩)) h
          exact ⟨rfl, (List.cons.inj hrest).2⟩
      | _ => grind [Item.text]

theorem Tail.text_inj {t u : Tail} (h : t.text = u.text) : t = u := by
  cases t with
  | single body hb =>
      cases u with
      | single body' hb' => simpa [text] using h
      | double _ _ | backslash => simp [text] at h
  | double body lone =>
      cases u with
      | double body' lone' =>
          simp only [text, List.cons_append, List.cons.injEq, true_and] at h
          obtain ⟨rfl, hlone⟩ := pieces_inj (endsPieces_lone lone) (endsPieces_lone lone') h
          cases lone <;> cases lone' <;> first | rfl | cases hlone
      | single _ _ | backslash => simp [text] at h
  | backslash => cases u <;> simp_all [text]

/-- A finished item is never the beginning of an unfinished one. -/
theorem Item.text_append_ne (i : Item) (r : List Char) (t : Tail) : i.text ++ r ≠ t.text := by
  intro h
  have hs := @ne_of_separates
  have hp := @ne_of_isPlain
  cases i with
  | blank c hc | plain c hc | escape c => cases t <;> grind [Item.text, Tail.text]
  | single body hb =>
      cases t with
      | single body' hb' =>
          simp only [Item.text, Tail.text, List.cons_append, List.append_assoc,
            List.cons.injEq, true_and] at h
          rw [← List.append_nil body'] at h
          cases (body_inj hb hb' (.inr ⟨_, rfl⟩) (.inl rfl) h).2
      | double _ _ | backslash => simp [Item.text, Tail.text] at h
  | double body =>
      cases t with
      | double body' lone =>
          simp only [Item.text, Tail.text, List.cons_append, List.append_assoc,
            List.cons.injEq, true_and] at h
          have hlone := (pieces_inj (.inr (.inr ⟨_, rfl⟩)) (endsPieces_lone lone) h).2
          cases lone <;> simp at hlone
      | single _ _ | backslash => simp [Item.text, Tail.text] at h

theorem Item.text_ne_nil (i : Item) : i.text ≠ [] := by
  cases i <;> simp [text]

theorem Tail.text_ne_nil (t : Tail) : t.text ≠ [] := by
  cases t <;> simp [text]

namespace Spelling

theorem text_nil_inj {tail tail' : Option Tail}
    (h : text ⟨[], tail⟩ = text ⟨[], tail'⟩) : tail = tail' := by
  cases tail with
  | none =>
      cases tail' with
      | none => rfl
      | some u => exact absurd h.symm u.text_ne_nil
  | some t =>
      cases tail' with
      | none => exact absurd h t.text_ne_nil
      | some u => rw [Tail.text_inj h]

theorem text_cons_ne_nil (i : Item) (s : Spelling) (tail : Option Tail) :
    (cons i s).text ≠ text ⟨[], tail⟩ := by
  rw [text_cons]
  cases tail with
  | none => exact fun h => i.text_ne_nil (List.append_eq_nil_iff.mp h).1
  | some t => exact i.text_append_ne s.text t

theorem text_inj {s t : Spelling} (h : s.text = t.text) : s = t := by
  obtain ⟨items, tail⟩ := s
  obtain ⟨items', tail'⟩ := t
  induction items generalizing items' with
  | nil =>
      cases items' with
      | nil => rw [text_nil_inj h]
      | cons j items' => exact absurd h.symm (text_cons_ne_nil j ⟨items', tail'⟩ tail)
  | cons i items ih =>
      cases items' with
      | nil => exact absurd h (text_cons_ne_nil i ⟨items, tail⟩ tail')
      | cons j items' =>
          have hcons : (cons i ⟨items, tail⟩).text = (cons j ⟨items', tail'⟩).text := h
          rw [text_cons, text_cons] at hcons
          obtain ⟨rfl, hrest⟩ := Item.text_append_inj hcons
          cases ih items' hrest
          rfl

end Spelling

/-! What the reader makes of a spelling -/

def ahead (w : List Char) (p : List Char × List (List Char)) : List Char × List (List Char) :=
  (w ++ p.1, p.2)

@[simp] theorem push_ahead (c : Char) (w : List Char) (p : List Char × List (List Char)) :
    push c (ahead w p) = ahead (c :: w) p := rfl

theorem scan_single_cons {c : Char} (hc : c ≠ '\'') (r : List Char) :
    scan .single (c :: r) = push c (scan .single r) := by
  have hturn : Quoting.turn .single c = none := by grind [Quoting.turn]
  rw [scan] <;> simp [hturn]

theorem scan_double_cons {c : Char} (hc : c ≠ '"' ∧ c ≠ '\\') (r : List Char) :
    scan .double (c :: r) = push c (scan .double r) := by
  have hturn : Quoting.turn .double c = none := by grind [Quoting.turn]
  rw [scan] <;> simp [hturn, hc.2]

theorem scan_bare_plain {c : Char} (hc : isPlain c = true) (r : List Char) :
    scan .bare (c :: r) = push c (scan .bare r) := by
  have hne := ne_of_isPlain hc
  have hturn : Quoting.turn .bare c = none := by grind [Quoting.turn]
  have hsep : separates c = false := by
    cases h : separates c with
    | false => rfl
    | true => exact absurd hc (by rw [(ne_of_separates h).2.2.2]; decide)
  rw [scan] <;> simp [hturn, hsep, hne.2.2]

theorem scan_bare_blank {c : Char} (hc : separates c = true) (r : List Char) :
    scan .bare (c :: r) = part (scan .bare r) := by
  have hne := ne_of_separates hc
  have hturn : Quoting.turn .bare c = none := by grind [Quoting.turn]
  rw [scan] <;> simp [hturn, hc, hne.2.2.1]

theorem scan_single {body : List Char} (hb : '\'' ∉ body) (r : List Char) :
    scan .single (body ++ r) = ahead body (scan .single r) := by
  induction body with
  | nil => rfl
  | cons c body ih =>
      simp only [List.mem_cons, not_or] at hb
      rw [List.cons_append, scan_single_cons (Ne.symm hb.1), ih hb.2, push_ahead]

theorem scan_double (body : List Piece) (r : List Char) :
    scan .double (body.flatMap Piece.text ++ r) =
      ahead (body.flatMap Piece.value) (scan .double r) := by
  induction body with
  | nil => rfl
  | cons p body ih =>
      rw [List.flatMap_cons, List.flatMap_cons, List.append_assoc]
      cases p with
      | plain c hc =>
          exact (scan_double_cons hc _).trans (congrArg (push c) ih)
      | escape c hc =>
          simp [Piece.text, Piece.value, scan, hc, ih]
      | kept c hc =>
          have hne : c ≠ '"' ∧ c ≠ '\\' := by grind [escapable]
          simp [Piece.text, Piece.value, scan, hc, scan_double_cons hne, ih]

/-- A blank ends the word in progress, any other item goes on with it. -/
def Item.into : Option (List Char) → List Char × List (List Char) →
    List Char × List (List Char)
  | none, p => part p
  | some w, p => ahead w p

theorem scan_item (i : Item) (r : List Char) :
    scan .bare (i.text ++ r) = Item.into i.value? (scan .bare r) := by
  cases i with
  | blank c hc => exact scan_bare_blank hc r
  | plain c hc => exact scan_bare_plain hc r
  | escape c => rfl
  | single body hb =>
      have hopen :
          scan .bare ('\'' :: (body ++ '\'' :: r)) = scan .single (body ++ '\'' :: r) := rfl
      have hclose : scan .single ('\'' :: r) = scan .bare r := rfl
      simp [Item.text, Item.value?, Item.into, hopen, scan_single hb, hclose]
  | double body =>
      have hopen : ∀ x, scan .bare ('"' :: x) = scan .double x := fun _ => rfl
      have hclose : scan .double ('"' :: r) = scan .bare r := rfl
      simp [Item.text, Item.value?, Item.into, hopen, scan_double, hclose]

theorem scan_tail (t : Tail) : scan .bare t.text = (t.value, []) := by
  cases t with
  | single body hb =>
      have h := scan_single hb []
      rw [List.append_nil] at h
      exact h.trans (by simp [ahead, scan, Tail.value])
  | double body lone =>
      have h := scan_double body (if lone then ['\\'] else [])
      refine (show scan .bare (Tail.text (.double body lone)) = _ from h).trans ?_
      cases lone <;> simp [ahead, scan, Tail.value, Quoting.turn, push]
  | backslash => rfl

/-- The first group as the word in progress, the others as words if they are not empty. -/
def asRead : List (List Char) → List Char × List (List Char)
  | [] => ([], [])
  | group :: later => (group, later.filter (· ≠ []))

theorem part_asRead (groups : List (List Char)) : part (asRead groups) = asRead ([] :: groups) := by
  cases groups with
  | nil => rfl
  | cons group later =>
      by_cases h : group = []
      · simp [part, asRead, withWord, h]
      · simp [part, asRead, withWord, h]

theorem ahead_asRead (w : List Char) {groups : List (List Char)} (h : groups ≠ []) :
    ahead w (asRead groups) = asRead (groups.modifyHead (w ++ ·)) := by
  cases groups with
  | nil => exact absurd rfl h
  | cons group later => rfl

namespace Spelling

theorem groups_ne_nil (s : Spelling) : s.groups ≠ [] := by
  simp [groups]

theorem groups_cons (i : Item) (s : Spelling) :
    (cons i s).groups =
      match i.value? with
      | none => [] :: s.groups
      | some w => s.groups.modifyHead (w ++ ·) := by
  have hvalues : (cons i s).values = i.value? :: s.values := rfl
  rw [groups, hvalues, List.splitOnP_cons_eq_if_modifyHead]
  cases i.value? with
  | none => rfl
  | some w =>
      obtain ⟨group, later, hg⟩ := List.exists_cons_of_ne_nil
        (List.splitOnP_ne_nil Option.isNone s.values)
      simp [groups, hg]

/-- Reading is guided by the items of the spelling, one after the other. -/
theorem scan_text (s : Spelling) : scan .bare s.text = asRead s.groups := by
  obtain ⟨items, tail⟩ := s
  induction items with
  | nil =>
      cases tail with
      | none => rfl
      | some t =>
          have hg : groups ⟨[], some t⟩ = [t.value] := by
            simp [groups, List.splitOnP_cons_eq_if_modifyHead]
          rw [hg]
          exact scan_tail t
  | cons i items ih =>
      have hstep : scan .bare (cons i ⟨items, tail⟩).text =
          Item.into i.value? (asRead (groups ⟨items, tail⟩)) := by
        rw [text_cons, scan_item, ih]
      refine hstep.trans ?_
      rw [show Spelling.mk (i :: items) tail = cons i ⟨items, tail⟩ from rfl, groups_cons]
      cases i.value? with
      | none => exact part_asRead _
      | some w => exact ahead_asRead w (groups_ne_nil _)

theorem wordsOf_text (s : Spelling) : wordsOf s.text = s.groups.filter (· ≠ []) := by
  rw [wordsOf, scan_text, part_asRead]
  rfl

end Spelling

/-- Every line has one spelling, and its words are the values of the groups in it that are
not empty. -/
theorem words_eq_groups (line : String) :
    ∃ s : Spelling, (∀ t : Spelling, t.text = line.toList ↔ t = s) ∧
      words line = (s.groups.filter (· ≠ [])).map String.ofList := by
  obtain ⟨s, hs⟩ := Spelling.exists_text line.toList
  refine ⟨s, fun t => ⟨fun ht => Spelling.text_inj (ht.trans hs.symm), fun ht => ht ▸ hs⟩, ?_⟩
  rw [words, ← hs, Spelling.wordsOf_text]

end LineShell.Line
