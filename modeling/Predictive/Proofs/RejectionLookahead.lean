import Predictive.Proofs.Completeness
import Predictive.Proofs.MatchedTokens

/-!
A rejection depends on no more than one token behind those that were matched. The plain machine looks at the
next token only: as long as it has one, putting other tokens behind it changes nothing but what is left to read
(`Plain.step_behind`, `Plain.after?_behind`). So runs on token lists that agree up to the token that stops one of
them stop in the same way, however their lengths and step limits differ (`rejection_lookahead`).
-/
namespace Predictive

namespace Plain

variable {table : Table}

/-- The same step with more tokens behind those that are left. -/
def Step.behind (back : List String) : Step → Step
  | .moved next => .moved { next with tokens := next.tokens ++ back }
  | .halted outcome => .halted outcome

theorem choice?_cons (name token : String) (rest others : List String) :
    choice? table name (token :: rest) = choice? table name (token :: others) := rfl

/-- While a token is left, a step does not see what is behind it. -/
theorem step_behind {front back : List String} (unread : front ≠ []) {stack : List Symbol} {history : List Nat} :
    step table { tokens := front ++ back, stack, history } =
      (step table { tokens := front, stack, history }).behind back := by
  obtain ⟨token, rest, rfl⟩ := List.exists_cons_of_ne_nil unread
  cases stack with
  | nil => rfl
  | cons top below =>
    cases top with
    | terminal name =>
      by_cases same : token = name
      · simp [step, same, Step.behind]
      · simp [step, same, Step.behind, rejection]
    | nonTerminal name =>
      simp only [step, List.cons_append, choice?_cons name token (rest ++ back) rest]
      cases choice? table name (token :: rest) with
      | none => rfl
      | some production => rfl
    | epsilon => rfl
    | endMarker => rfl

theorem step_eq_halted_behind {front back : List String} (unread : front ≠ []) (others : List String)
    {stack : List Symbol} {history : List Nat} {outcome : Outcome}
    (halted : step table { tokens := front ++ back, stack, history } = .halted outcome) :
    step table { tokens := front ++ others, stack, history } = .halted outcome := by
  rw [step_behind unread] at halted ⊢
  cases taken : step table { tokens := front, stack, history } with
  | moved next => simp [taken, Step.behind] at halted
  | halted last => simpa [taken, Step.behind] using halted

theorem suffix_of_after? {plain last : Plain} {count : Nat} (reached : plain.after? table count = some last) :
    last.tokens <:+ plain.tokens := by
  induction count generalizing plain with
  | zero =>
    cases reached
    exact List.suffix_refl _
  | succ count ih =>
    unfold after? at reached
    cases taken : plain.step table with
    | moved next =>
      have below : next.tokens <:+ plain.tokens := by
        cases step_eq_moved.mp taken with
        | terminal => exact List.suffix_cons _ _
        | epsilon => exact List.suffix_refl _
        | expand _ => exact List.suffix_refl _
      exact (ih (by simpa [taken] using reached)).trans below
    | halted outcome => simp [taken] at reached

/-- As long as a run has not come to the tokens at the back, it does not depend on them. -/
theorem after?_behind {front back : List String} {stack : List Symbol} {history : List Nat} {count : Nat}
    {last : Plain} (reached : after? table count { tokens := front ++ back, stack, history } = some last)
    (unread : back.length < last.tokens.length) (others : List String) :
    ∃ rest, rest ≠ [] ∧ last.tokens = rest ++ back ∧
      after? table count { tokens := front ++ others, stack, history } =
        some { last with tokens := rest ++ others } := by
  have unfinished : front ≠ [] := by
    rintro rfl
    have short := (suffix_of_after? reached).length_le
    simp only [List.nil_append] at short
    omega
  induction count generalizing front stack history with
  | zero =>
    cases reached
    exact ⟨front, unfinished, rfl, rfl⟩
  | succ count ih =>
    unfold after? at reached ⊢
    rw [step_behind unfinished] at reached ⊢
    cases taken : step table { tokens := front, stack, history } with
    | moved next =>
      simp only [taken, Step.behind] at reached ⊢
      have nextUnfinished : next.tokens ≠ [] := by
        intro none
        have short := (suffix_of_after? reached).length_le
        simp only [none, List.nil_append] at short
        omega
      exact ih reached nextUnfinished
    | halted outcome => simp [taken, Step.behind] at reached

/-- A run that ends in front of a token ends alike whatever stands behind this token. -/
theorem run?_behind {front behind : List String} {token : String} {stack : List Symbol} {history : List Nat}
    {count : Nat} {last : Plain} {outcome : Outcome}
    (reached : after? table count { tokens := front ++ token :: behind, stack, history } = some last)
    (left : last.tokens = token :: behind) (halted : last.step table = .halted outcome) (others : List String) :
    run? table (count + 1) { tokens := front ++ token :: others, stack, history } = some outcome := by
  rw [List.append_cons] at reached ⊢
  obtain ⟨rest, unfinished, same, reachedOther⟩ := after?_behind reached (by simp [left]) others
  obtain rfl : rest = [token] := List.append_cancel_right (same.symm.trans left)
  refine run?_of_after? reachedOther ?_
  obtain ⟨tokens, stack, history⟩ := last
  obtain rfl : tokens = [token] ++ behind := left
  exact step_eq_halted_behind unfinished others halted

end Plain

namespace Translator

/-- The tokens that a translation matches before it ends or comes to its limit. -/
def matched (translator : Translator) (tokens : List String) : List String :=
  (translator.initial tokens).matched translator.table (translator.limit tokens)

/-- Other tokens are translated to the same rejection, or they are fewer and exceed their own limit. -/
def RejectsAlike (translator : Translator) (rejection : Rejection) (tokens others : List String) : Prop :=
  translator.translate others = .ok (.rejected rejection) ∨
    others.length < tokens.length ∧ translator.translate others = .error (.runaway (translator.limit others))

theorem limit_mono (translator : Translator) {tokens others : List String} (longer : tokens.length ≤ others.length) :
    translator.limit tokens ≤ translator.limit others := by
  have allowed : translator.allowance * (tokens.length + 1) ≤ translator.allowance * (others.length + 1) :=
    Nat.mul_le_mul_left translator.allowance (Nat.succ_le_succ longer)
  unfold limit stepLimit
  omega

/-- A translation that is an error is one that came to its limit. -/
theorem runaway_of_translate {translator : Translator} {tokens : List String} {fault : Error}
    (failed : translator.translate tokens = .error fault) : fault = .runaway (translator.limit tokens) := by
  unfold translate at failed
  split at failed
  · contradiction
  · exact (Except.error.inj failed).symm

end Translator

section
variable {table : Table} {allowance : Nat} {tokens : List String}

/-- A translation that is not an error comes to a state that shows a configuration in which the plain machine
    halts. -/
theorem Translator.exists_shows (wellFormed : table.grammar.WellFormed) {outcome : Outcome}
    (translated : ({ table, allowance } : Translator).translate tokens = .ok outcome) :
    ∃ count last plain, count < ({ table, allowance } : Translator).limit tokens ∧
      (({ table, allowance } : Translator).initial tokens).after? table count = some last ∧
      (Plain.initial table.grammar.startSymbol tokens).after? table count = some plain ∧
      Shows table last plain ∧ plain.step table = .halted outcome ∧
      tokens = ({ table, allowance } : Translator).matched tokens ++ plain.tokens := by
  have run := Translator.translate_eq_ok.mp translated
  obtain ⟨count, last, reached, same, halts⟩ := State.exists_last table
    (({ table, allowance } : Translator).limit tokens) (({ table, allowance } : Translator).initial tokens)
  obtain ⟨within, halted⟩ := halts outcome run
  have shows : Shows table (({ table, allowance } : Translator).initial tokens)
      (Plain.initial table.grammar.startSymbol tokens) := .initial table.grammar_usable.1 tokens
  obtain ⟨plain, reachedPlain, showsLast⟩ := shows.of_after? wellFormed reached
  refine ⟨count, last, plain, within, reached, reachedPlain, showsLast, showsLast.step_eq_halted wellFormed halted, ?_⟩
  rw [Translator.matched, same]
  exact shows.tokens_eq reached showsLast

/-- A translation that is not an error halts in some configuration of the plain machine. The tokens matched up to
    there are followed by those that this configuration has left. -/
theorem Translator.exists_halted (wellFormed : table.grammar.WellFormed) {outcome : Outcome}
    (translated : ({ table, allowance } : Translator).translate tokens = .ok outcome) :
    ∃ count last, count < ({ table, allowance } : Translator).limit tokens ∧
      (Plain.initial table.grammar.startSymbol tokens).after? table count = some last ∧
      last.step table = .halted outcome ∧ last.stack ≠ [] ∧
      tokens = ({ table, allowance } : Translator).matched tokens ++ last.tokens := by
  obtain ⟨count, _, plain, within, _, reached, shows, halted, split⟩ := exists_shows wellFormed translated
  exact ⟨count, plain, within, reached, halted, shows.stack_ne_nil, split⟩

/-- The rejection of a translation is the one of the tokens behind the matched ones. -/
theorem Translator.rejection_eq (wellFormed : table.grammar.WellFormed) {rejection : Rejection}
    (rejected : ({ table, allowance } : Translator).translate tokens = .ok (.rejected rejection)) :
    ∃ top left, tokens = ({ table, allowance } : Translator).matched tokens ++ left ∧
      rejection = Plain.rejection table top left := by
  obtain ⟨_, last, _, _, halted, expects, split⟩ := exists_halted wellFormed rejected
  obtain ⟨top, _, _, same⟩ := Plain.step_eq_rejected expects halted
  exact ⟨top, last.tokens, split, same⟩

/-- Behind the token at which a translation is rejected, other tokens make no difference. -/
theorem Translator.rejectsAlike (wellFormed : table.grammar.WellFormed) {rejection : Rejection}
    (rejected : ({ table, allowance } : Translator).translate tokens = .ok (.rejected rejection)) {token : String}
    {behind : List String} (others : List String)
    (split : tokens = ({ table, allowance } : Translator).matched tokens ++ token :: behind) :
    RejectsAlike { table, allowance } rejection tokens
      (({ table, allowance } : Translator).matched tokens ++ token :: others) := by
  obtain ⟨count, last, within, reached, halted, expects, splitLast⟩ := exists_halted wellFormed rejected
  generalize ({ table, allowance } : Translator).matched tokens = matched at split splitLast ⊢
  have left : last.tokens = token :: behind := List.append_cancel_left (splitLast.symm.trans split)
  have run : (Plain.initial table.grammar.startSymbol (matched ++ token :: others)).run? table (count + 1) =
      some (.rejected rejection) := Plain.run?_behind (split ▸ reached) left halted others
  have shows : Shows table (({ table, allowance } : Translator).initial (matched ++ token :: others))
      (Plain.initial table.grammar.startSymbol (matched ++ token :: others)) := .initial table.grammar_usable.1 _
  have ends := (shows.lockstep wellFormed (count + 1)).2.trans run
  by_cases shorter : (matched ++ token :: others).length < tokens.length
  · cases result : ({ table, allowance } : Translator).translate (matched ++ token :: others) with
    | ok outcome => exact .inl (result.trans (congrArg _ (State.run?_unique (translate_eq_ok.mp result) ends)))
    | error fault => exact .inr ⟨shorter, result.trans (congrArg _ (runaway_of_translate result))⟩
  · have room := limit_mono { table, allowance } (Nat.le_of_not_lt shorter)
    exact .inl (translate_eq_ok.mpr (State.run?_mono ends (by omega)))

theorem Translator.rejectsAlike_of_take (wellFormed : table.grammar.WellFormed) {rejection : Rejection}
    (rejected : ({ table, allowance } : Translator).translate tokens = .ok (.rejected rejection)) (others : List String)
    (stopped : (({ table, allowance } : Translator).matched tokens).length < tokens.length)
    (same : others.take ((({ table, allowance } : Translator).matched tokens).length + 1) =
      tokens.take ((({ table, allowance } : Translator).matched tokens).length + 1)) :
    RejectsAlike { table, allowance } rejection tokens others := by
  obtain ⟨top, left, split, _⟩ := rejection_eq wellFormed rejected
  cases left with
  | nil =>
    rw [List.append_nil] at split
    exact absurd stopped (by rw [← split]; exact Nat.lt_irrefl _)
  | cons token behind =>
    have alike := fun others => rejectsAlike wellFormed rejected others split
    generalize ({ table, allowance } : Translator).matched tokens = matched at split same alike
    have front : others.take (matched.length + 1) = matched ++ [token] := by
      rw [same, split, List.take_length_add_append]
      rfl
    have whole := List.take_append_drop (matched.length + 1) others
    rw [front, List.append_assoc, List.singleton_append] at whole
    exact whole ▸ alike (others.drop (matched.length + 1))

/-- A token that is no terminal is never matched. -/
theorem Translator.length_matched_le {front behind : List String} {token : String}
    (unknown : token ∉ table.grammar.terminals)
    (split : ∃ left, front ++ token :: behind =
      ({ table, allowance } : Translator).matched (front ++ token :: behind) ++ left) :
    (({ table, allowance } : Translator).matched (front ++ token :: behind)).length ≤ front.length := by
  obtain ⟨left, split⟩ := split
  have declared : ∀ other ∈ ({ table, allowance } : Translator).matched (front ++ token :: behind),
      other ∈ table.grammar.terminals := State.matched_declared
  generalize ({ table, allowance } : Translator).matched (front ++ token :: behind) = matched at split declared ⊢
  by_contra longer
  rcases List.append_eq_append_iff.mp split with ⟨rest, rfl, same⟩ | ⟨rest, rfl, same⟩
  · cases rest with
    | nil => simp at longer
    | cons first more =>
      obtain rfl : token = first := by simpa using (List.cons.inj same).1
      exact unknown (declared token (by simp))
  · simp at longer

/-- A rejection shows the token behind the matched ones, or the empty word if there is none. -/
theorem Translator.rejection_shows (wellFormed : table.grammar.WellFormed) {rejection : Rejection}
    (rejected : ({ table, allowance } : Translator).translate tokens = .ok (.rejected rejection)) :
    let matched := ({ table, allowance } : Translator).matched tokens
    matched = tokens.take matched.length ∧
    (rejection.lookahead = .epsilon ↔ matched.length = tokens.length) ∧
    (∀ token ∈ tokens[matched.length]?, rejection.lookahead = .terminal token) ∧
    (∀ token, rejection.reason = .unknownToken token ↔
      token ∈ tokens[matched.length]? ∧ token ∉ table.grammar.terminals) ∧
    (rejection.reason = .noAction ∨ ∃ token, rejection.reason = .unknownToken token) := by
  intro matched
  obtain ⟨top, left, split, rfl⟩ := rejection_eq wellFormed rejected
  have split : tokens = matched ++ left := split
  clear_value matched
  subst split
  have next : (matched ++ left)[matched.length]? = left.head? := by
    rw [List.getElem?_append_right (Nat.le_refl _), Nat.sub_self, List.head?_eq_getElem?]
  rw [next]
  refine ⟨List.take_left.symm, ?_, fun token => Plain.lookahead_rejection_of_head?,
    fun token => Plain.reason_rejection_eq_unknownToken, ?_⟩
  · rw [Plain.lookahead_rejection, List.length_append]
    exact ⟨fun none => by simp [none], fun same => List.length_eq_zero_iff.mp (by omega)⟩
  · cases reason : (Plain.rejection table top left).reason with
    | noAction => exact .inl rfl
    | unknownToken token => exact .inr ⟨token, rfl⟩
    | exhausted => exact absurd reason Plain.reason_rejection

theorem Translator.terminals_of_accepted (wellFormed : table.grammar.WellFormed) {rules : List Nat}
    (accepted : ({ table, allowance } : Translator).translate tokens = .ok (.accepted rules)) :
    ∀ token ∈ tokens, token ∈ table.grammar.terminals := by
  obtain ⟨_, last, _, _, halted, _, split⟩ := exists_halted wellFormed accepted
  obtain ⟨noTokens, _, _⟩ := Plain.step_eq_accepted halted
  rw [noTokens, List.append_nil] at split
  rw [split]
  exact State.matched_declared

/-- Behind a token that is no terminal, other tokens make no difference to a rejection. -/
theorem Translator.rejectsAlike_of_unknown (wellFormed : table.grammar.WellFormed) {before behind : List String}
    {token : String} (unknown : token ∉ table.grammar.terminals) {rejection : Rejection}
    (rejected : ({ table, allowance } : Translator).translate (before ++ token :: behind) = .ok (.rejected rejection))
    (others : List String) :
    RejectsAlike { table, allowance } rejection (before ++ token :: behind) (before ++ token :: others) := by
  obtain ⟨_, left, split, _⟩ := rejection_eq wellFormed rejected
  have early := length_matched_le unknown ⟨left, split⟩
  refine rejectsAlike_of_take wellFormed rejected _ ?_ ?_
  · simp only [List.length_append, List.length_cons]
    omega
  · have room : (({ table, allowance } : Translator).matched (before ++ token :: behind)).length + 1 ≤
        (before ++ [token]).length := by simpa using early
    have take : ∀ rest, ((before ++ [token]) ++ rest).take _ = (before ++ [token]).take _ :=
      fun _ => List.take_append_of_le_length room
    simp only [List.append_assoc, List.singleton_append] at take
    exact (take others).trans (take behind).symm

end

section
variable {g : Grammar}

/-- A rejection shows the first token that was not matched, or the empty word if all were, and says whether
    this token is a terminal. It does not depend on anything behind this token: every token list that agrees
    up to it is rejected alike. So no list with a token that is no terminal is accepted, be it spelled like a
    reserved symbol or a non-terminal, and nothing behind such a token makes a difference to a rejection. -/
theorem rejection_lookahead (built : g.Built) {allowance : Nat} {translator : Translator}
    (made : Translator.ofGrammar g allowance = .ok translator) :
    (∀ tokens rejection, translator.translate tokens = .ok (.rejected rejection) →
      let count := (translator.matched tokens).length
      translator.matched tokens = tokens.take count ∧
      (rejection.lookahead = .epsilon ↔ count = tokens.length) ∧
      (∀ token ∈ tokens[count]?, rejection.lookahead = .terminal token) ∧
      (∀ token, rejection.reason = .unknownToken token ↔ token ∈ tokens[count]? ∧ token ∉ g.terminals) ∧
      (rejection.reason = .noAction ∨ ∃ token, rejection.reason = .unknownToken token) ∧
      (count < tokens.length → ∀ others, others.take (count + 1) = tokens.take (count + 1) →
        translator.RejectsAlike rejection tokens others)) ∧
    (∀ tokens, ∀ token ∈ tokens, token ∉ g.terminals →
      ∀ rules, translator.translate tokens ≠ .ok (.accepted rules)) ∧
    (∀ token, Reserved token ∨ token ∈ g.nonTerminals → token ∉ g.terminals) ∧
    ∀ before token behind others rejection, token ∉ g.terminals →
      translator.translate (before ++ token :: behind) = .ok (.rejected rejection) →
      translator.RejectsAlike rejection (before ++ token :: behind) (before ++ token :: others) := by
  obtain ⟨table, madeTable, rfl⟩ := Translator.ofGrammar_eq_ok made
  obtain rfl := Table.ofGrammar_eq_ok madeTable
  have wellFormed := built.wellFormed
  refine ⟨fun tokens rejection rejected => ?_, fun tokens token member unknown rules accepted => ?_, ?_, ?_⟩
  · obtain ⟨front, lookahead, shown, unknown, reasons⟩ := Translator.rejection_shows wellFormed rejected
    exact ⟨front, lookahead, shown, unknown, reasons, fun stopped others =>
      Translator.rejectsAlike_of_take wellFormed rejected others stopped⟩
  · exact unknown (Translator.terminals_of_accepted wellFormed accepted token member)
  · rintro token (reserved | nonTerminal) declared
    · exact wellFormed.names_free token (List.mem_append_left _ declared) reserved
    · exact wellFormed.kinds_disjoint token declared nonTerminal
  · exact fun before token behind others rejection unknown rejected =>
      Translator.rejectsAlike_of_unknown wellFormed unknown rejected others

/-- The rejection of the second operand of `a+b`. -/
def unknownOperand : Rejection where
  stackTop := .nonTerminal "T"
  lookahead := .terminal "b"
  reason := .unknownToken "b"

/-- In `a+b)` the token `b` is no terminal; the parenthesis behind it is never looked at. -/
theorem rejection_lookahead_unknown :
    Grammar.expression.Built ∧ Translator.ofGrammar .expression = .ok { table := expressionTable } ∧
    ({ table := expressionTable } : Translator).translate ["a", "+", "b", ")"] = .ok (.rejected unknownOperand) ∧
    ({ table := expressionTable } : Translator).matched ["a", "+", "b", ")"] = ["a", "+"] ∧
    (∀ others, ({ table := expressionTable } : Translator).RejectsAlike unknownOperand ["a", "+", "b", ")"]
      (["a", "+", "b"] ++ others)) ∧
    ∀ others rules, ({ table := expressionTable } : Translator).translate (["a", "+", "b"] ++ others) ≠
      .ok (.accepted rules) := by
  have made : Translator.ofGrammar .expression = .ok { table := expressionTable } := rfl
  have rejected : ({ table := expressionTable } : Translator).translate ["a", "+", "b", ")"] =
      .ok (.rejected unknownOperand) := rfl
  have matched : ({ table := expressionTable } : Translator).matched ["a", "+", "b", ")"] = ["a", "+"] := rfl
  have unknown : "b" ∉ Grammar.expression.terminals := by decide
  obtain ⟨alike, never, _, _⟩ := rejection_lookahead expression_built made
  refine ⟨expression_built, made, rejected, matched, fun others => ?_, fun others => ?_⟩
  · obtain ⟨_, _, _, _, _, same⟩ := alike _ _ rejected
    rw [matched] at same
    exact same (by decide) _ rfl
  · exact never _ "b" (by simp) unknown

end

end Predictive
