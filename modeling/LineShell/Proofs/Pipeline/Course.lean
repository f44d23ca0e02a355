import LineShell.Proofs.Pipeline.System

/-!
The course of one process. On its own a process has all of its input at hand and may take it
in portions of any size; somebody reads whatever it writes. Whether it is on such a course
in a pipeline depends on its neighbours alone: on what they have left in the pipes and on
which ends they have open.
-/

namespace LineShell.Pipeline

/-- What has been read. -/
def taken : List Reply → Bytes
  | [] => []
  | .got b :: replies => taken replies ++ b
  | .wrote :: replies | .broken :: replies | .saw _ :: replies | .done :: replies =>
      taken replies

namespace Conduct

variable (k : Conduct)

/-- What has been written and taken by a reader. -/
def written : List Reply → Bytes
  | [] => []
  | .wrote :: replies =>
      match k replies with
      | .write b => written replies ++ b
      | _ => written replies
  | .got _ :: replies | .broken :: replies | .saw _ :: replies | .done :: replies =>
      written replies

/-- This act is among those that are over. -/
def Did (a : Act) : List Reply → Prop
  | [] => False
  | _ :: replies => k replies = a ∨ Did a replies

/-- How the acts of a process can go on its own, with this input and as long as the files and
the working directory are as they should be. -/
inductive Plays (calm : World → Prop) (x : Bytes) : List Reply → Prop
  | start : Plays calm x []
  | take {replies : List Reply} {most : Nat} {b : Bytes} :
      Plays calm x replies → k replies = .read most → ¬k.Did .closeInlet replies → b ≠ [] →
      b.length ≤ most → taken replies ++ b <+: x → Plays calm x (.got b :: replies)
  | finish {replies : List Reply} {most : Nat} :
      Plays calm x replies → k replies = .read most →
      most = 0 ∨ k.Did .closeInlet replies ∨ taken replies = x → Plays calm x (.got [] :: replies)
  | sent {replies : List Reply} {b : Bytes} :
      Plays calm x replies → k replies = .write b → b = [] ∨ ¬k.Did .closeOutlet replies →
      Plays calm x (.wrote :: replies)
  | broken {replies : List Reply} {b : Bytes} :
      Plays calm x replies → k replies = .write b → k.Did .closeOutlet replies →
      Plays calm x (.broken :: replies)
  | visit {replies : List Reply} {change : World → World} {w : World} :
      Plays calm x replies → k replies = .visit change → calm w → Plays calm x (.saw w :: replies)
  | done {replies : List Reply} :
      Plays calm x replies →
      (∃ b, k replies = .complain b) ∨ k replies = .closeInlet ∨ k replies = .closeOutlet →
      Plays calm x (.done :: replies)

/-- On its own a process writes a function of its input, whatever the portions are in which
it gets it: nothing else on the way, and all of it before it closes its output or ends. -/
structure Computes (calm : World → Prop) (f : Bytes → Bytes) : Prop where
  begins {x : Bytes} {replies : List Reply} : k.Plays calm x replies → k.written replies <+: f x
  whole {x : Bytes} {replies : List Reply} : k.Plays calm x replies →
    k.Did .closeOutlet replies ∨ k replies = .exit → k.written replies = f x

def textOf : Except ShellError String → Bytes
  | .ok s => Bytes.ofText s
  | .error _ => []

section ofBuiltin

variable {setting : Setting} {h : History} {b : Builtin} {arguments : List String}
  {replies : List Reply}

theorem closes_of_two_le {act : Act} (ha : ofBuiltin setting h b arguments replies = act)
    (hn : 2 ≤ replies.length) : act = .closeOutlet ∨ act = .closeInlet ∨ act = .exit := by
  subst ha
  match replies with
  | [] | [_] => simp at hn
  | [_, _] | [_, _, _] | _ :: _ :: _ :: _ :: _ => simp [ofBuiltin]

theorem ofBuiltin_ne_read (most : Nat) : ofBuiltin setting h b arguments replies ≠ .read most := by
  unfold ofBuiltin
  split
  · nofun
  · split <;> nofun
  · nofun
  · nofun
  · nofun

theorem nil_of_ofBuiltin_visit {change : World → World}
    (hvisit : ofBuiltin setting h b arguments replies = .visit change) :
    replies = [] ∧ change = fun w => (b.run setting h w arguments).world := by
  unfold ofBuiltin at hvisit
  split at hvisit
  · exact ⟨rfl, (Act.visit.inj hvisit).symm⟩
  · split at hvisit <;> cases hvisit
  · cases hvisit
  · cases hvisit
  · cases hvisit

/-- A builtin that comes to the same wherever it is carried out has written its text as soon as
its second act is over. -/
theorem written_ofBuiltin {calm : World → Prop} {result : Except ShellError String}
    (hresult : ∀ w, calm w → (b.run setting h w arguments).result = result) {x : Bytes}
    (hplays : (ofBuiltin setting h b arguments).Plays calm x replies) :
    replies = [] ∨ (∃ w, calm w ∧ replies = [.saw w]) ∨
      2 ≤ replies.length ∧
        (ofBuiltin setting h b arguments).written replies = textOf result := by
  induction hplays with
  | start => exact .inl rfl
  | take _ ha | finish _ ha => exact absurd ha (ofBuiltin_ne_read _)
  | visit _ ha hcalm =>
      obtain ⟨rfl, -⟩ := nil_of_ofBuiltin_visit ha
      exact .inr (.inl ⟨_, hcalm, rfl⟩)
  | sent _ ha _ ih =>
      obtain rfl | ⟨w, hcalm, rfl⟩ | ⟨hn, -⟩ := ih
      · cases ha
      · refine .inr (.inr ⟨Nat.le_refl 2, ?_⟩)
        simp only [ofBuiltin, hresult w hcalm] at ha
        cases result with
        | ok s => simp only [written, ofBuiltin, hresult w hcalm, textOf, List.nil_append]
        | error e => cases ha
      · obtain hact | hact | hact := closes_of_two_le ha hn <;> cases hact
  | broken _ ha hdid ih =>
      obtain rfl | ⟨w, hcalm, rfl⟩ | ⟨hn, -⟩ := ih
      · exact hdid.elim
      · obtain hdid | hdid := hdid <;> cases hdid
      · obtain hact | hact | hact := closes_of_two_le ha hn <;> cases hact
  | done _ ha ih =>
      obtain rfl | ⟨w, hcalm, rfl⟩ | ⟨hn, hwritten⟩ := ih
      · obtain ⟨b, ha⟩ | ha | ha := ha <;> cases ha
      · refine .inr (.inr ⟨Nat.le_refl 2, ?_⟩)
        simp only [ofBuiltin, hresult w hcalm] at ha
        cases result with
        | ok s => obtain ⟨b, ha⟩ | ha | ha := ha <;> cases ha
        | error e => rfl
      · exact .inr (.inr ⟨Nat.le_succ_of_le hn, hwritten⟩)

theorem computes_ofBuiltin {calm : World → Prop} {result : Except ShellError String}
    (hresult : ∀ w, calm w → (b.run setting h w arguments).result = result) :
    (ofBuiltin setting h b arguments).Computes calm fun _ => textOf result where
  begins hplays := by
    obtain rfl | ⟨w, -, rfl⟩ | ⟨-, hwritten⟩ := written_ofBuiltin hresult hplays
    · exact List.nil_prefix
    · exact List.nil_prefix
    · exact hwritten ▸ List.prefix_rfl
  whole hplays hover := by
    obtain rfl | ⟨w, hcalm, rfl⟩ | ⟨-, hwritten⟩ := written_ofBuiltin hresult hplays
    · exact hover.elim False.elim fun hexit => nomatch hexit
    · obtain (hdid | hdid) | hexit := hover
      · cases hdid
      · exact hdid.elim
      · simp only [ofBuiltin] at hexit
        split at hexit <;> cases hexit
    · exact hwritten

end ofBuiltin

end Conduct

namespace Process

/-- What has left a process so far, a write that is not yet over included. -/
def delivered (p : Process) : Bytes :=
  p.conduct.written p.replies ++
    match p.act with
    | .write b => b.take p.sent
    | _ => []

/-- An end is gone if the process has closed it or ended, and only a write through an open
end is ever half done. -/
structure Tidy (p : Process) : Prop where
  inlet {e : StreamEnd} : p.inlet = some e → ¬p.conduct.Did .closeInlet p.replies
  noInlet : p.inlet = none → p.conduct.Did .closeInlet p.replies ∨ p.act = .exit
  outlet {e : StreamEnd} : p.outlet = some e → ¬p.conduct.Did .closeOutlet p.replies
  noOutlet : p.outlet = none → p.conduct.Did .closeOutlet p.replies ∨ p.act = .exit
  sent : p.sent ≠ 0 → ∃ e b, p.outlet = some e ∧ p.act = .write b ∧ p.sent ≤ b.length

variable {p : Process}

theorem delivered_of_not_write (h : ∀ b, p.act ≠ .write b) :
    p.delivered = p.conduct.written p.replies := by
  unfold delivered
  split
  · rename_i b ha
    exact absurd ha (h b)
  · exact List.append_nil _

theorem delivered_of_sent_eq_zero (h : p.sent = 0) :
    p.delivered = p.conduct.written p.replies := by
  unfold delivered
  split
  · rw [h, List.take_zero, List.append_nil]
  · exact List.append_nil _

theorem delivered_of_write {b : Bytes} (h : p.act = .write b) :
    p.delivered = p.conduct.written p.replies ++ b.take p.sent := by
  rw [delivered, h]

theorem Tidy.sent_eq_zero (hp : p.Tidy) (h : p.outlet = none) : p.sent = 0 := by
  refine Classical.byContradiction fun hs => ?_
  obtain ⟨e, -, he, -⟩ := hp.sent hs
  cases h.symm.trans he

theorem Tidy.answered (hp : p.Tidy) (hin : p.act ≠ .closeInlet) (hout : p.act ≠ .closeOutlet)
    (hexit : p.act ≠ .exit) (r : Reply) : (p.answered r).Tidy where
  inlet he := fun hdid => hdid.elim hin (hp.inlet he)
  noInlet he := .inl (.inr ((hp.noInlet he).resolve_right hexit))
  outlet he := fun hdid => hdid.elim hout (hp.outlet he)
  noOutlet he := .inl (.inr ((hp.noOutlet he).resolve_right hexit))
  sent hs := absurd rfl hs

theorem tidy_process (κ : Circumstances) (i : Nat) (task : Task) : (κ.process i task).Tidy where
  inlet _ := id
  noInlet h := nomatch h
  outlet _ := id
  noOutlet h := nomatch h
  sent hs := absurd rfl hs

end Process

variable {κ : Circumstances} {opened : List StreamEnd} {p p' : Process} {t t' : Traffic}

theorem Move.conduct_eq (h : Move κ opened p t p' t') : p'.conduct = p.conduct := by
  cases h <;> rfl

theorem Move.tidy (h : Move κ opened p t p' t') (hp : p.Tidy) : p'.Tidy := by
  cases h with
  | take ha | finish ha | readNothing ha | sent ha | broken ha | complain ha | visit ha =>
      exact hp.answered (by rw [ha]; nofun) (by rw [ha]; nofun) (by rw [ha]; nofun) _
  | send ha ho hr hn hb =>
      exact ⟨hp.inlet, hp.noInlet, hp.outlet, hp.noOutlet, fun _ => ⟨_, _, ho, ha, hb⟩⟩
  | closeInlet ha =>
      have hexit : p.act ≠ .exit := by rw [ha]; nofun
      have hout : p.act ≠ .closeOutlet := by rw [ha]; nofun
      exact
        { inlet := nofun
          noInlet := fun _ => .inl (.inl ha)
          outlet := fun he hdid => hdid.elim hout (hp.outlet he)
          noOutlet := fun he => .inl (.inr ((hp.noOutlet he).resolve_right hexit))
          sent := fun hs => absurd rfl hs }
  | closeOutlet ha =>
      have hexit : p.act ≠ .exit := by rw [ha]; nofun
      have hin : p.act ≠ .closeInlet := by rw [ha]; nofun
      exact
        { inlet := fun he hdid => hdid.elim hin (hp.inlet he)
          noInlet := fun he => .inl (.inr ((hp.noInlet he).resolve_right hexit))
          outlet := nofun
          noOutlet := fun _ => .inl (.inl ha)
          sent := fun hs => absurd rfl hs }
  | exit ha =>
      refine ⟨nofun, fun _ => .inr ha, nofun, fun _ => .inr ha, fun hs => ?_⟩
      obtain ⟨e, b, -, hw, -⟩ := hp.sent hs
      cases ha.symm.trans hw

/-- What a move has to do with the rest of the pipeline: it takes bytes through the inlet, or
leaves bytes behind the outlet, or does neither. Part of a write is lost if nobody reads it. -/
theorem Move.effect (h : Move κ opened p t p' t') (hp : p.Tidy) :
    (∃ n e, p.inlet = some e ∧ taken p'.replies = taken p.replies ++ (t.front e).take n ∧
      p'.delivered = p.delivered ∧ t' = t.consume n e) ∨
    (∃ b e, p.outlet = some e ∧ taken p'.replies = taken p.replies ∧
      p'.delivered = p.delivered ++ b ∧ t' = t.deliver b e) ∨
    (taken p'.replies = taken p.replies ∧
      (p'.delivered = p.delivered ∨ ∃ e, p.outlet = some e ∧ ¬κ.Read opened e) ∧
      t'.pipes = t.pipes ∧ t'.console.input = t.console.input ∧ t'.output = t.output) := by
  have hanswered (r : Reply) : (p.answered r).delivered = p.conduct.written (r :: p.replies) :=
    Process.delivered_of_sent_eq_zero rfl
  cases h with
  | @take most n e ha hi hn hm hf =>
      refine .inl ⟨n, e, hi, rfl, ?_, rfl⟩
      rw [hanswered, Process.delivered_of_not_write (by rw [ha]; nofun)]
      rfl
  | finish ha | readNothing ha =>
      refine .inr (.inr ⟨List.append_nil _, .inl ?_, rfl, rfl, rfl⟩)
      rw [hanswered, Process.delivered_of_not_write (by rw [ha]; nofun)]
      rfl
  | @send b n e ha ho hr hn hb hf =>
      refine .inr (.inl ⟨(b.drop p.sent).take n, e, ho, rfl, ?_, rfl⟩)
      have ha' : ({ p with sent := p.sent + n } : Process).act = .write b := ha
      rw [Process.delivered_of_write ha', Process.delivered_of_write ha, List.append_assoc,
        List.take_add]
  | @sent b ha hb =>
      refine .inr (.inr ⟨rfl, .inl ?_, rfl, rfl, rfl⟩)
      have ha' : p.conduct p.replies = .write b := ha
      rw [hanswered, Process.delivered_of_write ha, List.take_of_length_le hb]
      simp only [Conduct.written, ha']
  | @broken b ha hb hr =>
      refine .inr (.inr ⟨rfl, ?_, rfl, rfl, rfl⟩)
      cases ho : p.outlet with
      | some e => exact .inr ⟨e, rfl, hr e ho⟩
      | none =>
          refine .inl ?_
          rw [hanswered, Process.delivered_of_sent_eq_zero (hp.sent_eq_zero ho)]
          rfl
  | complain ha | visit ha =>
      refine .inr (.inr ⟨rfl, .inl ?_, rfl, rfl, rfl⟩)
      rw [hanswered, Process.delivered_of_not_write (by rw [ha]; nofun)]
      rfl
  | closeInlet ha | closeOutlet ha =>
      refine .inr (.inr ⟨rfl, .inl ?_, rfl, rfl, rfl⟩)
      rw [Process.delivered_of_not_write (p := p) (by rw [ha]; nofun)]
      exact Process.delivered_of_sent_eq_zero rfl
  | exit ha => exact .inr (.inr ⟨rfl, .inl rfl, rfl, rfl, rfl⟩)

/-- A process stays on the course that it takes on its own, if what it finds goes on as its
input does, the files are as they should be and somebody reads what it writes. -/
theorem Move.plays (h : Move κ opened p t p' t') (hp : p.Tidy) {calm : World → Prop} {x : Bytes}
    (hplays : p.conduct.Plays calm x p.replies) (hcalm : calm t.console.world)
    (hin : ∀ e, p.inlet = some e → taken p.replies ++ t.front e <+: x ∧
      (t.front e = [] → ¬Fed opened e → taken p.replies = x))
    (hout : ∀ e, p.outlet = some e → κ.Read opened e) :
    p'.conduct.Plays calm x p'.replies := by
  cases h with
  | @take most n e ha hi hn hm hf =>
      have hlen : ((t.front e).take n).length = n := List.length_take_of_le hf
      refine hplays.take ha (hp.inlet hi) ?_ ?_ ?_
      · intro hnil
        rw [hnil] at hlen
        exact Nat.ne_of_lt hn hlen
      · rw [hlen]
        exact hm
      · exact ((List.prefix_append_right_inj _).mpr (List.take_prefix n _)).trans (hin e hi).1
  | finish ha hi hf hw => exact hplays.finish ha (.inr (.inr ((hin _ hi).2 hf hw)))
  | readNothing ha h =>
      refine hplays.finish ha (h.imp_right fun hi => .inl ?_)
      exact (hp.noInlet hi).resolve_right (by rw [ha]; nofun)
  | send => exact hplays
  | @sent b ha hb =>
      refine hplays.sent ha ?_
      by_cases hs : p.sent = 0
      · rw [hs] at hb
        exact .inl (List.length_eq_zero_iff.mp (Nat.le_zero.mp hb))
      · obtain ⟨e, -, he, -⟩ := hp.sent hs
        exact .inr (hp.outlet he)
  | broken ha hb hr =>
      refine hplays.broken ha ?_
      cases ho : p.outlet with
      | some e => exact absurd (hout e ho) (hr e ho)
      | none => exact (hp.noOutlet ho).resolve_right (by rw [ha]; nofun)
  | complain ha => exact hplays.done (.inl ⟨_, ha⟩)
  | visit ha => exact hplays.visit ha hcalm
  | closeInlet ha => exact hplays.done (.inr (.inl ha))
  | closeOutlet ha => exact hplays.done (.inr (.inr ha))
  | exit => exact hplays

namespace Process

variable {calm : World → Prop} {f : Bytes → Bytes} {x : Bytes}

/-- Of a write under way no more is to be expected than when it is over. -/
theorem delivered_prefix (hp : p.Tidy) (hf : p.conduct.Computes calm f)
    (hplays : p.conduct.Plays calm x p.replies) : p.delivered <+: f x := by
  by_cases hs : p.sent = 0
  · rw [delivered_of_sent_eq_zero hs]
    exact hf.begins hplays
  · obtain ⟨e, b, he, ha, -⟩ := hp.sent hs
    have hover := hf.begins (hplays.sent ha (.inr (hp.outlet he)))
    have ha' : p.conduct p.replies = .write b := ha
    simp only [Conduct.written, ha'] at hover
    rw [delivered_of_write ha]
    exact ((List.prefix_append_right_inj _).mpr (List.take_prefix _ _)).trans hover

theorem delivered_eq (hp : p.Tidy) (hf : p.conduct.Computes calm f)
    (hplays : p.conduct.Plays calm x p.replies) (ho : p.outlet = none) : p.delivered = f x := by
  rw [delivered_of_sent_eq_zero (hp.sent_eq_zero ho)]
  exact hf.whole hplays (hp.noOutlet ho)

end Process

namespace System

variable {κ : Circumstances} {l : Launch} {c : Console} {s : System}

/-- Every process does what the stage of its number is there for. -/
theorem conduct_of_reachable (h : Reachable κ l c s) {i : Nat} {p : Process}
    (hi : s.processes[i]? = some p) :
    ∃ task, l.started[i]? = some task ∧ p.conduct = κ.conduct i task.work := by
  induction h generalizing p with
  | refl => simp [start] at hi
  | tail _ hs ih =>
      obtain hi | ⟨task, ht, rfl⟩ | ⟨p, hi, hm⟩ := hs.process hi
      · exact ih hi
      · exact ⟨task, ht, rfl⟩
      · rw [hm.conduct_eq]
        exact ih hi

end System

end LineShell.Pipeline
