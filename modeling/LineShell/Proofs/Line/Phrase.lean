import LineShell.Line.Redirection

/-!
The grammar of a command: words, and operators each with the word after it, whatever that word
is. An operator with nothing after it may stand at the end. Every list of words is read in just
one way, and the command is what this reading says.
-/

namespace LineShell.Line

abbrev Operator := { w : String // (operator? w).isSome = true }

namespace Operator

def channel (op : Operator) : Channel :=
  ((operator? op).get op.property).1

def append (op : Operator) : Bool :=
  ((operator? op).get op.property).2

theorem operator?_eq (op : Operator) : operator? op = some (op.channel, op.append) :=
  (Option.some_get op.property).symm

end Operator

inductive Clause
  | word (w : String) (h : operator? w = none)
  | redirection (op : Operator) (target : String)

namespace Clause

def words : Clause → List String
  | .word w _ => [w]
  | .redirection op target => [op, target]

def arg? : Clause → Option String
  | .word w _ => some w
  | .redirection _ _ => none

def redirection? (channel : Channel) : Clause → Option Redirection
  | .word _ _ => none
  | .redirection op target => if op.channel = channel then some ⟨target, op.append⟩ else none

/-- Whether the first word is an operator tells how many words the clause has. -/
theorem words_append_inj {cl cl' : Clause} {ws ws' : List String}
    (h : cl.words ++ ws = cl'.words ++ ws') : cl = cl' ∧ ws = ws' := by
  cases cl with
  | word w hw =>
      cases cl' with
      | word w' _ =>
          obtain ⟨rfl, rfl⟩ := List.cons.inj h
          exact ⟨rfl, rfl⟩
      | redirection op _ =>
          obtain ⟨rfl, -⟩ := List.cons.inj h
          cases hw.symm.trans op.operator?_eq
  | redirection op target =>
      cases cl' with
      | word w' hw' =>
          obtain ⟨rfl, -⟩ := List.cons.inj h
          cases hw'.symm.trans op.operator?_eq
      | redirection op' target' =>
          obtain ⟨hop, hrest⟩ := List.cons.inj h
          obtain ⟨rfl, rfl⟩ := List.cons.inj hrest
          exact ⟨by rw [Subtype.ext hop], rfl⟩

theorem words_append_ne (cl : Clause) (ws : List String) (dangling : Option Operator) :
    cl.words ++ ws ≠ dangling.toList.map Subtype.val := by
  intro h
  cases dangling with
  | none => cases cl <;> cases h
  | some op =>
      cases cl with
      | word w hw =>
          obtain ⟨rfl, -⟩ := List.cons.inj h
          cases hw.symm.trans op.operator?_eq
      | redirection _ _ => cases (List.cons.inj h).2

end Clause

structure Phrase where
  clauses : List Clause
  /-- An operator at the end that has no word after it. -/
  dangling : Option Operator

namespace Phrase

def words (p : Phrase) : List String :=
  p.clauses.flatMap Clause.words ++ p.dangling.toList.map Subtype.val

def args (p : Phrase) : List String :=
  p.clauses.filterMap Clause.arg? ++ p.dangling.toList.map Subtype.val

/-- The redirection of a stream that holds. -/
def last (p : Phrase) (channel : Channel) : Option Redirection :=
  (p.clauses.filterMap (Clause.redirection? channel)).getLast?

def cons (cl : Clause) (p : Phrase) : Phrase :=
  { p with clauses := cl :: p.clauses }

/-- A phrase is what stands at its end, with clauses put in front one by one. -/
@[elab_as_elim] theorem consInduction {motive : Phrase → Prop}
    (lone : ∀ dangling, motive ⟨[], dangling⟩) (cons : ∀ cl p, motive p → motive (p.cons cl))
    (p : Phrase) : motive p := by
  obtain ⟨clauses, dangling⟩ := p
  induction clauses with
  | nil => exact lone dangling
  | cons cl clauses ih => exact cons cl ⟨clauses, dangling⟩ ih

theorem words_lone (dangling : Option Operator) :
    words ⟨[], dangling⟩ = dangling.toList.map Subtype.val := rfl

@[simp] theorem words_cons (cl : Clause) (p : Phrase) : (p.cons cl).words = cl.words ++ p.words := by
  simp [cons, words]

@[simp] theorem args_cons (cl : Clause) (p : Phrase) :
    (p.cons cl).args = cl.arg?.toList ++ p.args := by
  cases cl <;> rfl

theorem last_cons (cl : Clause) (p : Phrase) (channel : Channel) :
    (p.cons cl).last channel = (p.last channel).or (cl.redirection? channel) := by
  rw [last, cons, List.filterMap_cons]
  cases cl.redirection? channel with
  | none => exact (Option.or_none).symm
  | some r =>
      rw [List.getLast?_cons, last]
      cases (p.clauses.filterMap (Clause.redirection? channel)).getLast? <;> rfl

theorem exists_words (ws : List String) : ∃ p : Phrase, p.words = ws := by
  match ws with
  | [] => exact ⟨⟨[], none⟩, rfl⟩
  | w :: rest =>
      cases hw : operator? w with
      | none =>
          obtain ⟨p, rfl⟩ := exists_words rest
          exact ⟨p.cons (.word w hw), words_cons _ _⟩
      | some _ =>
          let op : Operator := ⟨w, by rw [hw]; rfl⟩
          match rest with
          | [] => exact ⟨⟨[], some op⟩, rfl⟩
          | target :: rest =>
              obtain ⟨p, rfl⟩ := exists_words rest
              exact ⟨p.cons (.redirection op target), words_cons _ _⟩

theorem words_inj {p q : Phrase} (h : p.words = q.words) : p = q := by
  induction p using consInduction generalizing q with
  | lone dangling =>
      cases q using consInduction with
      | lone dangling' =>
          rw [words_lone, words_lone] at h
          cases dangling with
          | none => cases dangling' with
            | none => rfl
            | some _ => cases h
          | some op => cases dangling' with
            | none => cases h
            | some op' => rw [Subtype.ext (List.singleton_inj.mp h)]
      | cons cl' q =>
          rw [words_lone, words_cons] at h
          exact absurd h.symm (cl'.words_append_ne q.words dangling)
  | cons cl p ih =>
      cases q using consInduction with
      | lone dangling' =>
          rw [words_lone, words_cons] at h
          exact absurd h (cl.words_append_ne p.words dangling')
      | cons cl' q =>
          rw [words_cons, words_cons] at h
          obtain ⟨rfl, hrest⟩ := Clause.words_append_inj h
          rw [ih hrest]

end Phrase

namespace Command

theorem ofWords_cons_word {w : String} (hw : operator? w = none) (ws : List String) :
    ofWords (w :: ws) = (ofWords ws).withArg w := by
  cases ws with
  | nil => rfl
  | cons target rest => simp only [ofWords, hw]

theorem ofWords_cons_redirection (op : Operator) (target : String) (ws : List String) :
    ofWords (op :: target :: ws) =
      (ofWords ws).withRedirection op.channel ⟨target, op.append⟩ := by
  simp only [ofWords, op.operator?_eq]

/-- A command has the words of its phrase for arguments, and for each stream the last
redirection. -/
theorem ofWords_words (p : Phrase) :
    ofWords p.words = ⟨p.args, p.last .out, p.last .err⟩ := by
  induction p using Phrase.consInduction with
  | lone dangling => cases dangling <;> rfl
  | cons cl p ih =>
      rw [Phrase.words_cons, Phrase.args_cons, Phrase.last_cons, Phrase.last_cons]
      cases cl with
      | word w hw =>
          rw [Clause.words, List.singleton_append, ofWords_cons_word hw, ih]
          simp [withArg, Clause.arg?, Clause.redirection?]
      | redirection op target =>
          rw [Clause.words, List.cons_append, List.singleton_append, ofWords_cons_redirection, ih]
          cases hc : op.channel <;> simp [withRedirection, Clause.arg?, Clause.redirection?, hc]

end Command

end LineShell.Line
