import Scopewise.Parse.Session
import Scopewise.Proofs.Parse.Blame
import Scopewise.Proofs.Parse.Course
import Scopewise.Proofs.Parse.Monitor

namespace Scopewise.Parse

open Scope Token

variable {α : Type} {tokens : List Token} {file : String} {s t : State}

theorem State.On.onward {limit : Option Nat} (h : s.On tokens file) (h' : s.Onward limit t) :
    t.On tokens file where
  split := by
    obtain ⟨before, htokens, hline⟩ := h.split
    obtain ⟨passed, hrest, hline'⟩ := h'.passed
    refine ⟨before ++ passed, by rw [htokens, hrest, List.append_assoc], ?_⟩
    rw [hline', hline, newlines_append, ← Nat.add_assoc]
    exact (UInt32.ofNat_add _ _).symm
  file := h'.file.trans h.file

/-- The state is on the tokens and within the bound on nesting, and has been so all the time. -/
structure State.InStep (s : State) (tokens : List Token) (file : String) : Prop where
  on : s.On tokens file
  depth : s.depth ≤ Rules.maxNesting
  peak : s.peak ≤ Rules.maxNesting

/-- A later state of a session that keeps its counts. -/
def State.Later (tokens : List Token) (file : String) (s t : State) : Prop :=
  t.InStep tokens file ∧ t.rest <:+ s.rest

namespace State.InStep

theorem onward (hs : s.InStep tokens file) (h : s.Onward (some Rules.maxNesting) t) :
    s.Later tokens file t :=
  ⟨⟨hs.on.onward h, h.depth ▸ hs.depth, h.peak _ rfl hs.peak⟩, h.suffix⟩

theorem descend (hs : s.InStep tokens file) (hroom : s.depth < Rules.maxNesting) :
    s.descend.InStep tokens file where
  on := ⟨hs.on.split, hs.on.file⟩
  depth := hroom
  peak := max_le hs.peak hroom

theorem ascend (hs : s.InStep tokens file) : s.ascend.InStep tokens file where
  on := ⟨hs.on.split, hs.on.file⟩
  depth := (Nat.sub_le _ _).trans hs.depth
  peak := hs.peak

theorem repeat_ascend (hs : s.InStep tokens file) (times : Nat) :
    s.Later tokens file (Nat.repeat State.ascend times s) := by
  induction times with
  | zero => exact ⟨hs, List.suffix_refl _⟩
  | succ times ih => exact ⟨ih.1.ascend, ih.2⟩

end State.InStep

theorem run_descendTimes_succ (limit : Option Nat) (times : Nat) :
    (descendTimes limit (times + 1)).run s =
      match (descend limit).run s with
      | .ok _ t => ((fun stop => (stop.1 + 1, stop.2)) <$> descendTimes limit times).run t
      | .error failure t => .ok (0, some failure.diagnostic) t :=
  rfl

/-- Levels are opened only while there is room for them. -/
theorem ends_descendTimes (hs : s.InStep tokens file) (times : Nat) :
    Ends (descendTimes (some Rules.maxNesting) times) s (fun _ t => s.Later tokens file t)
      fun _ t => s.Later tokens file t := by
  induction times generalizing s with
  | zero => exact ⟨hs, List.suffix_refl _⟩
  | succ times ih =>
    unfold Ends
    rw [run_descendTimes_succ, run_descend_some]
    by_cases hroom : s.depth < Rules.maxNesting
    · rw [if_pos hroom]
      exact ends_map.2 (ih (hs.descend hroom))
    · rw [if_neg hroom]
      exact ⟨hs, List.suffix_refl _⟩

/-- Nothing is said of the scopes. -/
def Effect.any : Effect where
  done _ _ := True
  broken _ _ := True
  done_refl _ := trivial
  broken_refl _ := trivial
  done_trans _ _ := trivial
  broken_trans _ _ := trivial

theorem Proceeds.any {limit : Option Nat} {effect : Effect} {p : Parser α}
    {good : α → State → Prop} (h : Proceeds limit effect p s good) :
    Proceeds limit .any p s fun _ _ => True :=
  Ends.mono h (fun _ _ ha => ⟨ha.1, trivial, trivial⟩) fun _ _ he => ⟨he.1, trivial⟩

theorem proceeds_change (limit : Option Nat) (change : Change) :
    Proceeds limit .any (Parse.change change) s fun _ _ => True :=
  Ends.mono (ends_change_onward limit change) (fun _ _ ha => ⟨ha.1, trivial, trivial⟩)
    fun _ _ he => ⟨he.1, trivial⟩

namespace Command

theorem ends_run {rules : Rules} (hlimit : rules.limit = some Rules.maxNesting)
    (hs : s.InStep tokens file) (n : Nat) (command : Command) :
    Ends (command.run rules n) s (fun _ t => s.Later tokens file t)
      fun _ t => s.Later tokens file t := by
  -- all commands but those on levels go on and keep the level they came from
  have hproceeds {p : Parser Reply} (h : Proceeds rules.limit .any p s fun _ _ => True) :
      Ends p s (fun _ t => s.Later tokens file t) fun _ t => s.Later tokens file t := by
    rw [hlimit] at h
    exact Ends.mono h (fun _ _ ha => hs.onward ha.1) fun _ _ he => hs.onward he.1
  have hreply {β : Type} {p : Parser β} {reply : β → Reply} {good : β → State → Prop}
      (h : Proceeds rules.limit .any p s good) :
      Ends (do return reply (← p)) s (fun _ t => s.Later tokens file t)
        fun _ t => s.Later tokens file t :=
    hproceeds (h.bind fun _ _ _ _ => .pure trivial)
  cases command with
  | addStandardRules | setPower _ _ | setOperand _ _ | setKeyword _ _ | lookup _ | keywords =>
    exact hproceeds (.pure trivial)
  | peek => exact hreply .peek
  | peekKind => exact hreply .peekKind
  | hasTokens => exact hreply .peek
  | advance => exact hreply .advance
  | expect kind => exact hreply .expect
  | expectNamed kind expected => exact hreply .expectNamed
  | unexpected expected => exact hproceeds .unexpected
  | position => exact hproceeds (.get (.pure trivial))
  | descend times =>
    refine ends_bind.2 (Ends.mono ?_ (fun _ _ => id) fun _ _ => id)
    rw [hlimit]
    exact ends_descendTimes hs times
  | ascend times => exact ends_bind.2 (ends_modify.2 (hs.repeat_ascend times))
  | change c => exact hproceeds ((proceeds_change rules.limit c).bind fun _ _ _ _ => .pure trivial)
  | query q => exact hproceeds (.get (.pure trivial))
  | expression power => exact hreply (proceeds_expression rules n power s)
  | binary left power =>
    exact hreply (proceeds_binary (proceeds_expression rules n) left power)
  | operand rule =>
    exact hreply (rule.proceeds_parse (proceeds_expression rules n) n)
  | statement => exact hreply (proceeds_statement rules n s).any
  | block => exact hreply (proceeds_block (proceeds_statement rules n) n).any
  | keyword rule => exact hreply (rule.proceeds_parse (proceeds_statement rules n)).any
  | returnType => exact hreply proceeds_returnType
  | paramType => exact hreply proceeds_paramType

/-- No command changes the bound on nesting. -/
theorem limit_adjust (rules : Rules) (command : Command) :
    (command.adjust rules).limit = rules.limit := by
  cases command <;> rfl

end Command

namespace Session

/-- The session after some commands. One that fails does not stop it. -/
def after (session : Session) (commands : List Command) : Session :=
  commands.foldl (fun session command => (session.step command).2) session

/-- How many of the tokens lie behind. -/
def cursor (session : Session) (tokens : List Token) : Nat :=
  tokens.length - session.state.rest.length

variable {session : Session}

theorem step_later (hlimit : session.rules.limit = some Rules.maxNesting)
    (hs : session.state.InStep tokens file) (command : Command) :
    (session.step command).2.rules.limit = some Rules.maxNesting ∧
      session.state.Later tokens file (session.step command).2.state := by
  have hrun := command.ends_run hlimit hs session.state.rest.length
  unfold Ends at hrun
  unfold step
  cases hresult : (command.run session.rules session.state.rest.length).run session.state with
  | ok reply t =>
    rw [hresult] at hrun
    rw [show command.run session.rules session.state.rest.length session.state = _ from hresult]
    exact ⟨(command.limit_adjust _).trans hlimit, hrun⟩
  | error failure t =>
    rw [hresult] at hrun
    rw [show command.run session.rules session.state.rest.length session.state = _ from hresult]
    exact ⟨hlimit, hrun⟩

theorem after_later (hlimit : session.rules.limit = some Rules.maxNesting)
    (hs : session.state.InStep tokens file) (commands : List Command) :
    (session.after commands).rules.limit = some Rules.maxNesting ∧
      session.state.Later tokens file (session.after commands).state := by
  induction commands generalizing session with
  | nil => exact ⟨hlimit, hs, List.suffix_refl _⟩
  | cons command commands ih =>
    obtain ⟨hlimit', hs', hsuffix⟩ := step_later hlimit hs command
    obtain ⟨hlimit'', hs'', hsuffix'⟩ := ih hlimit' hs'
    exact ⟨hlimit'', hs'', hsuffix'.trans hsuffix⟩

theorem inStep_start (tokens : List Token) (file : String) :
    (start tokens file).state.InStep tokens file :=
  ⟨⟨⟨[], rfl, rfl⟩, rfl⟩, Nat.zero_le _, Nat.zero_le _⟩

theorem cursor_le_of_suffix {later : Session} (h : later.state.rest <:+ session.state.rest) :
    session.cursor tokens ≤ later.cursor tokens :=
  Nat.sub_le_sub_left h.length_le _

/-- What lies behind and what lies ahead, by the cursor. -/
theorem split_cursor {before : List Token} (h : tokens = before ++ session.state.rest) :
    session.cursor tokens = before.length := by
  unfold cursor
  rw [h, List.length_append]
  omega

end Session

/-- Tokens of a text stand in the lines that a parse of them counts. -/
theorem line_of_tokenize {source : String} {file? : Option String}
    (h : tokenize source file? = .ok tokens) {before after : List Token} {token : Token}
    (htokens : tokens = before ++ token :: after) :
    token.line = (1 + newlines before).toUInt32 := by
  have hspells : Spells (file?.getD shellLabel) 1 source.toList tokens [] := by
    apply tokenize_eq_ok
    rw [← h]
    rfl
  obtain ⟨-, -, -, -, hposition, -⟩ := hspells.exists_split htokens
  exact congrArg Position.line hposition

/-- A session never goes back in its tokens and never runs past them; its line is one more than the
number of newlines behind it, and that of the token in front of it if the tokens are those of a
text; and its levels stay within the bound, also while a command runs. -/
theorem Session.counts_after (tokens : List Token) (file : String) (commands : List Command)
    (h : tokens.length < UInt32.size - 1) :
    let session := (Session.start tokens file).after commands
    let cursor := session.cursor tokens
    cursor ≤ tokens.length ∧ session.state.rest = tokens.drop cursor ∧
    (∀ more, cursor ≤ (session.after more).cursor tokens) ∧
    session.state.line.toNat = 1 + newlines (tokens.take cursor) ∧
    session.state.depth ≤ Rules.maxNesting ∧ session.state.peak ≤ Rules.maxNesting ∧
    ∀ source file?, tokenize source file? = .ok tokens →
      ∀ token, tokens[cursor]? = some token → session.state.line = token.line := by
  intro session cursor
  obtain ⟨hlimit, hs, hsuffix⟩ := after_later rfl (inStep_start tokens file) commands
  obtain ⟨before, hbefore, hline⟩ := hs.on.split
  have hcursor : cursor = before.length := split_cursor hbefore
  have htake : tokens.take cursor = before := by
    rw [hcursor]
    exact (congrArg (List.take _) hbefore).trans List.take_left
  have hdrop : tokens.drop cursor = session.state.rest := by
    rw [hcursor]
    exact (congrArg (List.drop _) hbefore).trans List.drop_left
  refine ⟨Nat.sub_le _ _, hdrop.symm, fun more => ?_, ?_, hs.depth, hs.peak, ?_⟩
  · exact cursor_le_of_suffix (after_later hlimit hs more).2.2
  · have hcount : newlines before ≤ before.length := List.countP_le_length
    have hlength : before.length ≤ tokens.length := by
      rw [hbefore, List.length_append]
      omega
    rw [htake]
    change session.state.line = _ at hline
    rw [hline]
    exact UInt32.toNat_ofNat_of_lt' (show 1 + newlines before < UInt32.size by omega)
  · intro source file? htokenize token htoken
    have hhead : session.state.rest.head? = some token := by
      rw [← hdrop, List.head?_drop]
      exact htoken
    obtain ⟨after, hrest⟩ := List.head?_eq_some_iff.1 hhead
    change session.state.line = _ at hline
    rw [hline, line_of_tokenize htokenize (hbefore.trans (congrArg (before ++ ·) hrest))]

/-- A name that is not declared, more levels than there are and a statement that is none: three
commands fail, and the session stands behind the newline. -/
theorem Session.counts_after_failures :
    let tokens : List Token := [⟨.identifier, "x", 1, "f"⟩, ⟨.newline, "\n", 1, "f"⟩,
      ⟨.closeParen, ")", 2, "f"⟩]
    let commands : List Command :=
      [.addStandardRules, .expression .lowest, .descend 300, .statement]
    tokens.length < UInt32.size - 1 ∧
      ((Session.start tokens "f").after commands).cursor tokens = 2 ∧
      ((Session.start tokens "f").after commands).state.depth = Rules.maxNesting ∧
      ((Session.start tokens "f").after commands).state.line.toNat =
        1 + newlines (tokens.take 2) := by
  intro tokens commands
  have hlength : tokens.length < UInt32.size - 1 := by decide
  have hcursor : ((Session.start tokens "f").after commands).cursor tokens = 2 := by
    decide +kernel
  refine ⟨hlength, hcursor, by decide +kernel, ?_⟩
  -- the commands are not to be run again
  clear_value commands
  rw [← hcursor]
  exact (Session.counts_after tokens "f" commands hlength).2.2.2.1

end Scopewise.Parse
