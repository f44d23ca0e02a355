import LineShell.Proofs.Line.Phrase

/-!
What the order of the clauses of a phrase has to do with its command. Only the order of the words
and, for each stream, the order of its redirections count. Of a phrase without its redirections
the words are the arguments of the command, so reading a command's arguments again changes
nothing.
-/

namespace LineShell.Line

/-- The operators, each with its stream and whether it appends. -/
def Operator.table : List (String × Channel × Bool) :=
  [(">", .out, false), ("1>", .out, false), (">>", .out, true), ("1>>", .out, true),
    ("2>", .err, false), ("2>>", .err, true)]

theorem operator?_eq_lookup (w : String) : operator? w = Operator.table.lookup w := by
  unfold operator?
  split
  · rfl
  · rfl
  · rfl
  · rfl
  · rfl
  · rfl
  · exact (List.lookup_eq_none_iff.mpr (by simp_all [Operator.table])).symm

namespace Phrase

/-- The same words in the same order, for each stream the same redirections in the same order,
and the same operator at the end. -/
structure Keeps (p q : Phrase) : Prop where
  words : q.clauses.filterMap Clause.arg? = p.clauses.filterMap Clause.arg?
  redirections (channel : Channel) :
    q.clauses.filterMap (Clause.redirection? channel) =
      p.clauses.filterMap (Clause.redirection? channel)
  dangling : q.dangling = p.dangling

variable {p q : Phrase}

theorem Keeps.args_eq (h : p.Keeps q) : q.args = p.args := by
  rw [args, args, h.words, h.dangling]

theorem Keeps.last_eq (h : p.Keeps q) (channel : Channel) : q.last channel = p.last channel := by
  rw [last, last, h.redirections]

/-- A clause may move past others if it is not kept itself or none of them is. -/
theorem filterMap_move {α β : Type} {f : α → Option β} {a : α} {between : List α}
    (h : f a = none ∨ ∀ b ∈ between, f b = none) (before after : List α) :
    (before ++ between ++ a :: after).filterMap f =
      (before ++ a :: between ++ after).filterMap f := by
  simp only [List.filterMap_append, List.filterMap_cons]
  cases ha : f a with
  | none => rw [List.append_assoc]
  | some b =>
      have hnone : ∀ b ∈ between, f b = none := h.resolve_left (by simp [ha])
      simp [List.filterMap_eq_nil_iff.mpr hnone]

theorem keeps_move {op : Operator} {target : String} {between : List Clause}
    (h : ∀ cl ∈ between, cl.redirection? op.channel = none) (before after : List Clause)
    (dangling : Option Operator) :
    Keeps ⟨before ++ .redirection op target :: between ++ after, dangling⟩
      ⟨before ++ between ++ .redirection op target :: after, dangling⟩ where
  words := filterMap_move (.inl rfl) before after
  redirections channel := by
    refine filterMap_move ?_ before after
    by_cases hc : op.channel = channel
    · exact .inr (hc ▸ h)
    · exact .inl (if_neg hc)
  dangling := rfl

/-- A phrase without its redirections. -/
def bare (p : Phrase) : Phrase :=
  { p with clauses := p.clauses.filter (·.arg?.isSome) }

@[simp] theorem bare_cons_word (w : String) (hw : operator? w = none) (p : Phrase) :
    (p.cons (.word w hw)).bare = p.bare.cons (.word w hw) := rfl

theorem words_bare (p : Phrase) : p.bare.words = p.args := by
  induction p using consInduction with
  | lone dangling => rfl
  | cons cl p ih =>
      rw [args_cons, ← ih]
      cases cl with
      | word w hw => rw [bare_cons_word, words_cons]; rfl
      | redirection op target => rfl

theorem args_bare (p : Phrase) : p.bare.args = p.args := by
  induction p using consInduction with
  | lone dangling => rfl
  | cons cl p ih =>
      rw [args_cons, ← ih]
      cases cl with
      | word w hw => rw [bare_cons_word, args_cons]
      | redirection op target => rfl

theorem last_bare (p : Phrase) (channel : Channel) : p.bare.last channel = none := by
  induction p using consInduction with
  | lone dangling => rfl
  | cons cl p ih =>
      cases cl with
      | word w hw =>
          rw [bare_cons_word, last_cons, ih]
          rfl
      | redirection op target => exact ih

end Phrase

namespace Command

theorem ofWords_eq_of_keeps {p q : Phrase} (h : p.Keeps q) :
    ofWords q.words = ofWords p.words := by
  rw [ofWords_words, ofWords_words, h.args_eq, h.last_eq, h.last_eq]

theorem ofWords_args (ws : List String) :
    ofWords (ofWords ws).args = ⟨(ofWords ws).args, none, none⟩ := by
  obtain ⟨p, rfl⟩ := Phrase.exists_words ws
  have hargs : (ofWords p.words).args = p.bare.words := by
    rw [ofWords_words, p.words_bare]
  rw [hargs, ofWords_words, p.args_bare, p.words_bare, p.last_bare, p.last_bare]

/-- Any words are a phrase in just one way: words that are no operators, operators each with the
word after it, and at the end perhaps an operator left over. The command has the words and the
operator left over for arguments, and for each stream the last redirection. So a redirection may
stand anywhere as long as those of one stream keep their order, and a command's arguments have no
redirection left in them. -/
theorem ofWords_reads_phrase :
    (∀ w, operator? w = Operator.table.lookup w) ∧
    (∀ ws, ∃ p : Phrase, p.words = ws ∧ (∀ q : Phrase, q.words = ws → q = p) ∧
      ofWords ws = ⟨p.args, p.last .out, p.last .err⟩) ∧
    (∀ p q : Phrase, p.Keeps q → ofWords q.words = ofWords p.words) ∧
    (∀ (op : Operator) (target : String) (before between after : List Clause)
      (dangling : Option Operator), (∀ cl ∈ between, cl.redirection? op.channel = none) →
      ofWords (Phrase.words ⟨before ++ between ++ .redirection op target :: after, dangling⟩) =
        ofWords
          (Phrase.words ⟨before ++ .redirection op target :: between ++ after, dangling⟩)) ∧
    ∀ ws, ofWords (ofWords ws).args = ⟨(ofWords ws).args, none, none⟩ := by
  refine ⟨operator?_eq_lookup, fun ws => ?_, fun p q h => ofWords_eq_of_keeps h,
    fun op target before between after dangling h => ?_, ofWords_args⟩
  · obtain ⟨p, rfl⟩ := Phrase.exists_words ws
    exact ⟨p, rfl, fun q hq => Phrase.words_inj hq, ofWords_words p⟩
  · exact ofWords_eq_of_keeps (Phrase.keeps_move h before after dangling)

/-- A redirection to a file that is called like an operator moves past one of the other stream;
the one behind them, which holds, stays the last of its stream. -/
theorem ofWords_moved_redirection :
    ofWords ["ls", ">", "f", "-l", "2>", ">", ">>", "g", "1>"] =
      ofWords ["ls", "2>", ">", ">", "f", "-l", ">>", "g", "1>"] ∧
    ofWords ["ls", ">", "f", "-l", "2>", ">", ">>", "g", "1>"] =
      ⟨["ls", "-l", "1>"], some ⟨"g", true⟩, some ⟨">", false⟩⟩ := by
  refine ⟨?_, by decide +kernel⟩
  exact ofWords_reads_phrase.2.2.2.1 ⟨"2>", rfl⟩ ">" [.word "ls" rfl]
    [.redirection ⟨">", rfl⟩ "f", .word "-l" rfl] [.redirection ⟨">>", rfl⟩ "g"]
    (some ⟨"1>", rfl⟩) (by decide +kernel)

end Command

end LineShell.Line
