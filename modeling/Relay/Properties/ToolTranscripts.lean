import Relay.Agent.Transcript

/-!
# Does every use of a tool get its result?

A list of messages is checked against the uses that have been served: each turn of the
assistant takes its own from the front, and the next message holds their results. The
invariant of the loop is that the messages so far pass with the whole log.
-/

namespace Relay.Agent.Transcript

open Effects

/-- Each turn that uses tools is followed by one with their results: one result for each
use, in the same order, under the same id and with the text of what was served. -/
def Paired (str : Json → String) : List Message → List Served → Prop
  | [], served => served = []
  | .user _ :: rest, served => Paired str rest served
  | .assistant content :: .toolResults results :: rest, served =>
    usesIn content ≠ [] ∧ ∃ own later, served = own ++ later ∧
      own.map Served.block = usesIn content ∧ results = own.map (Served.answer str) ∧
      Paired str rest later
  | .assistant content :: rest, served => usesIn content = [] ∧ Paired str rest served
  | .toolResults _ :: _, _ => False

section Paired

variable {str : Json → String} {messages tail : List Message} {served own : List Served}
  {content : List Block}

theorem Paired.append (first : Paired str messages served) (second : Paired str tail own) :
    Paired str (messages ++ tail) (served ++ own) := by
  induction messages, served using Paired.induct with
  | case1 served =>
    obtain rfl : served = [] := first
    exact second
  | case2 text rest served ih => exact ih first
  | case3 content results rest served ih =>
    obtain ⟨used, mine, later, rfl, blocks, answers, after⟩ := first
    exact ⟨used, mine, later ++ own, List.append_assoc _ _ _, blocks, answers, ih later after⟩
  | case4 content rest served unanswered ih =>
    rw [Paired.eq_4 _ _ _ _ unanswered] at first
    rw [List.cons_append, Paired.eq_4]
    · exact ⟨first.1, ih first.2⟩
    · -- results would have to open `rest` or `tail`
      intro results rest' opens
      cases rest with
      | nil =>
        rw [List.nil_append] at opens
        rw [opens] at second
        exact second.elim
      | cons message rest =>
        obtain ⟨rfl, -⟩ := List.cons.inj opens
        exact unanswered results rest rfl
  | case5 results rest served => exact first.elim

theorem paired_user (text : String) : Paired str [.user text] [] := rfl

theorem paired_turn (used : usesIn content ≠ [])
    (blocks : own.map Served.block = usesIn content) :
    Paired str [.assistant content, .toolResults (own.map (Served.answer str))] own :=
  ⟨used, own, [], (List.append_nil _).symm, blocks, rfl, rfl⟩

end Paired

section Loop

variable {σ : Type} {client : Client σ} {env : Surroundings} {subject : Subject}
  {str : Json → String} {system : String} {maxCalls : Nat}

/-- What was sent passes with the uses served by then. -/
def Sound (str : Json → String) (t : Talk σ) : Prop :=
  ∀ messages ∈ t.sent, ∃ served, served <+: t.served ∧ Paired str messages served

/-- Each call of the model but the last has been followed by the count of a tool. -/
structure Underway (str : Json → String) (maxCalls calls : Nat) (messages : List Message)
    (t : Talk σ) : Prop where
  paired : Paired str messages t.served
  sound : Sound str t
  counted : t.sent.length ≤ calls
  limited : t.sent.length ≤ maxCalls

def Over (str : Json → String) (maxCalls : Nat) (t : Talk σ) : Prop :=
  t.sent.length ≤ maxCalls + 1 ∧ Sound str t

theorem Sound.sends {t t' : Talk σ} {messages : List Message} (sound : Sound str t)
    (paired : Paired str messages t.served) (sent : t'.sent = t.sent ++ [messages])
    (served : t'.served = t.served) : Sound str t' := by
  intro list listed
  rw [sent, List.mem_append, List.mem_singleton] at listed
  rw [served]
  rcases listed with earlier | rfl
  · exact sound list earlier
  · exact ⟨t.served, List.prefix_refl _, paired⟩

theorem Sound.apart {t t' : Talk σ} (sound : Sound str t) (apart : Apart t t') : Sound str t' := by
  intro messages listed
  rw [apart.sent] at listed
  obtain ⟨served, within, paired⟩ := sound messages listed
  exact ⟨served, within.trans apart.served, paired⟩

theorem keeps_underway : Keeps client env subject str system maxCalls
    (Underway str maxCalls) (Over str maxCalls) where
  asked {calls messages t} underway _ := by
    refine ⟨?_, underway.sound.sends underway.paired (callModel_sent t) (callModel_served t)⟩
    rw [callModel_sent, List.length_append]
    exact Nat.succ_le_succ underway.limited
  closed {calls messages t} underway := by
    have paired : Paired str (messages ++ [summarize]) (t.served ++ []) :=
      underway.paired.append (paired_user _)
    rw [List.append_nil] at paired
    refine ⟨?_, underway.sound.sends paired (callModel_sent t) (callModel_served t)⟩
    rw [callModel_sent, List.length_append]
    exact Nat.succ_le_succ underway.limited
  apart done apart := ⟨apart.sent ▸ done.1, done.2.apart apart⟩
  again {calls messages t response results} underway going _ used worked := by
    have sound : Sound str (final (callModel client system messages) t) :=
      underway.sound.sends underway.paired (callModel_sent t) (callModel_served t)
    have apart := within_useTools env subject str (toolUses response)
      (final (callModel client system messages) t)
    have counted := underway.counted
    have more : 0 < (toolUses response).length := List.length_pos_of_ne_nil used
    obtain ⟨own, log, blocks, rfl⟩ := useTools_ok worked
    refine ⟨?_, sound.apart apart, ?_, ?_⟩
    · rw [log, callModel_served]
      exact underway.paired.append (paired_turn used blocks)
    · rw [apart.sent, callModel_sent, List.length_append, List.length_singleton]
      omega
    · rw [apart.sent, callModel_sent, List.length_append, List.length_singleton]
      omega

end Loop

/-- Whatever the model replies and the tools do, the loop ends after at most one more call of
the model than it may call tools, and every list that it sends has the results of all its uses. -/
theorem tool_loop_transcripts {σ : Type} (client : Client σ) (env : Surroundings)
    (subject : Subject) (str : Json → String) (system opening : String) (maxCalls : Nat)
    (p : Progress) (state : σ) :
    let loop := runToolLoop client env subject str system opening maxCalls
    let start : Talk σ := { progress := p, client := state }
    outcome loop start ≠ .ok none ∧ (final loop start).sent.length ≤ maxCalls + 1 ∧
      ∀ messages ∈ (final loop start).sent, ∃ served,
        served <+: (final loop start).served ∧ Paired str messages served := by
  have start : Underway str maxCalls 0 [.user opening]
      ({ progress := p, client := state } : Talk σ) :=
    ⟨rfl, fun _ listed => absurd listed List.not_mem_nil, Nat.le_refl 0, Nat.zero_le maxCalls⟩
  obtain ⟨ends, few, sound⟩ := keeps_underway.ends (Nat.le_add_left maxCalls 0) start
  exact ⟨ends, few, sound⟩

end Relay.Agent.Transcript
