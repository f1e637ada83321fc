import Ocelotl.Library.Parsing

/-! Parsers that blame the first token after which no word of their language is
left. Each is compared with a family of parsers that may go on for longer, on
tokens that are the same as far as the first one reads. -/

namespace Ocelotl.Library

variable {ε τ α β ι : Type}

/-- Where the parser succeeds it has read a word of the language, and where it
fails it blames a token that no word has after the tokens before. The other
parsers do the same on all tokens that agree up to there. -/
structure Diagnoses (blames : ε → τ → Prop) (given : List τ → Prop) (parser : EStateM ε (List τ) α)
    (parser' : ι → EStateM ε (List τ) α) (derives : List τ → α → Prop) : Prop where
  ok : ∀ {tokens value rest}, given tokens → parser tokens = .ok value rest →
    ∃ read, tokens = read ++ rest ∧ derives read value ∧
      ∀ index rest', rest'.head? = rest.head? → parser' index (read ++ rest') = .ok value rest'
  error : ∀ {tokens error final}, given tokens → parser tokens = .error error final →
    ∃ before token after, tokens = before ++ token :: after ∧ blames error token ∧
      (∃ rest value, derives (before ++ rest) value) ∧
      ∀ index after', ∃ final', parser' index (before ++ token :: after') = .error error final'

theorem head?_append_of_head? {read rest rest' : List τ} (same : rest'.head? = rest.head?) :
    (read ++ rest').head? = (read ++ rest).head? := by
  rw [List.head?_append, List.head?_append, same]

theorem head?_append_cons {before : List τ} {token : τ} {after after' : List τ} :
    (before ++ token :: after').head? = (before ++ token :: after).head? :=
  head?_append_of_head? rfl

/-- A decision that looks at the current token only does not see what comes later. -/
theorem decides_of_head? {decides : List τ → Bool} {read rest rest' : List τ} {decision : Bool}
    (looks : ∀ {tokens tokens' : List τ}, tokens.head? = tokens'.head? →
      decides tokens = decides tokens')
    (same : rest'.head? = rest.head?) (decided : decides (read ++ rest) = decision) :
    decides (read ++ rest') = decision := (looks (head?_append_of_head? same)).trans decided

theorem exists_succ_of_le {ι : Type} {bound : Nat} {bounds : ι → Nat}
    (longer : ∀ index, bound + 1 ≤ bounds index) :
    ∃ bounds' : ι → Nat, bounds = fun index => bounds' index + 1 := by
  refine ⟨fun index => bounds index - 1, funext fun index => ?_⟩
  have positive := longer index
  show bounds index = bounds index - 1 + 1
  omega

namespace Diagnoses

variable {blames : ε → τ → Prop} {given given' : List τ → Prop} {parser : EStateM ε (List τ) α}
  {parser' : ι → EStateM ε (List τ) α} {derives derives' : List τ → α → Prop}

/-- A wider language, and fewer tokens to read from. -/
theorem mono (diagnoses : Diagnoses blames given parser parser' derives)
    (fewer : ∀ tokens, given' tokens → given tokens)
    (wider : ∀ read value, derives read value → derives' read value) :
    Diagnoses blames given' parser parser' derives' where
  ok := by
    intro tokens value rest here success
    obtain ⟨read, same, derived, agrees⟩ := diagnoses.ok (fewer tokens here) success
    exact ⟨read, same, wider read value derived, agrees⟩
  error := by
    intro tokens error final here failure
    obtain ⟨before, token, after, same, blamed, ⟨rest, value, derived⟩, agrees⟩ :=
      diagnoses.error (fewer tokens here) failure
    exact ⟨before, token, after, same, blamed, ⟨rest, value, wider _ _ derived⟩, agrees⟩

theorem widen (diagnoses : Diagnoses blames given parser parser' derives)
    (wider : ∀ read value, derives read value → derives' read value) :
    Diagnoses blames given parser parser' derives' := diagnoses.mono (fun _ here => here) wider

theorem pure {value : α} (derived : derives [] value) :
    Diagnoses blames given (pure value) (fun _ : ι => pure value) derives where
  ok := by
    intro tokens result rest _ success
    cases success
    exact ⟨[], rfl, derived, fun _ _ _ => rfl⟩
  error := by
    intro tokens error final _ failure
    cases failure

/-- A parser that fails at the current token. -/
theorem throw {error : ε} {token : τ} (blamed : blames error token)
    (inhabited : ∃ read value, derives read value) :
    Diagnoses blames (fun tokens => given tokens ∧ tokens.head? = some token) (throw error)
      (fun _ : ι => throw error) derives where
  ok := by
    intro tokens value rest _ success
    cases success
  error := by
    intro tokens error' final here failure
    cases failure
    obtain ⟨rest, rfl⟩ := List.head?_eq_some_iff.mp here.2
    exact ⟨[], token, rest, rfl, blamed, inhabited, fun _ after => ⟨_, rfl⟩⟩

/-- A parser that goes on as the current token tells it to. -/
theorem current {choose : τ → EStateM ε (List τ) α} {choose' : ι → τ → EStateM ε (List τ) α}
    (nonempty : ∀ tokens, given tokens → tokens ≠ [])
    (runs : ∀ token rest, parser (token :: rest) = choose token (token :: rest))
    (runs' : ∀ index token rest, parser' index (token :: rest) =
      choose' index token (token :: rest))
    (each : ∀ token, Diagnoses blames (fun tokens => given tokens ∧ tokens.head? = some token)
      (choose token) (fun index => choose' index token) derives) :
    Diagnoses blames given parser parser' derives where
  ok := by
    intro tokens value rest here success
    cases tokens with
    | nil => exact absurd rfl (nonempty _ here)
    | cons token tokens =>
      rw [runs] at success
      obtain ⟨read, same, derived, agrees⟩ := (each token).ok ⟨here, rfl⟩ success
      refine ⟨read, same, derived, fun index rest' kept => ?_⟩
      have head : (read ++ rest').head? = some token :=
        (head?_append_of_head? kept).trans (congrArg List.head? same.symm)
      obtain ⟨tail, split⟩ := List.head?_eq_some_iff.mp head
      rw [split, runs', ← split]
      exact agrees index rest' kept
  error := by
    intro tokens error final here failure
    cases tokens with
    | nil => exact absurd rfl (nonempty _ here)
    | cons token tokens =>
      rw [runs] at failure
      obtain ⟨before, blamed, after, same, named, viable, agrees⟩ :=
        (each token).error ⟨here, rfl⟩ failure
      refine ⟨before, blamed, after, same, named, viable, fun index after' => ?_⟩
      have head : (before ++ blamed :: after').head? = some token :=
        head?_append_cons.trans (congrArg List.head? same.symm)
      obtain ⟨tail, split⟩ := List.head?_eq_some_iff.mp head
      rw [split, runs', ← split]
      exact agrees index after'

/-- One parser after another. Whatever the first one reads can be completed. -/
theorem bind {next : α → EStateM ε (List τ) β} {next' : ι → α → EStateM ε (List τ) β}
    {whole : List τ → β → Prop} {givenLater : List τ → Prop}
    (first : Diagnoses blames given parser parser' derives)
    (passes : ∀ {read value tokens}, derives read value → given (read ++ tokens) →
      givenLater tokens)
    (completes : ∀ {read value}, derives read value → ∃ more result, whole (read ++ more) result)
    (rest : ∀ {read value}, derives read value →
      Diagnoses blames givenLater (next value) (fun index => next' index value)
      fun more result => whole (read ++ more) result) :
    Diagnoses blames given (parser >>= next) (fun index => parser' index >>=
      next' index) whole where
  ok := by
    intro tokens result final here success
    obtain ⟨value, middle, parsed, continued⟩ := bind_ok.mp success
    obtain ⟨read, rfl, derived, agrees⟩ := first.ok here parsed
    obtain ⟨more, rfl, derivedLater, agreesLater⟩ :=
      (rest derived).ok (passes derived here) continued
    refine ⟨read ++ more, (List.append_assoc _ _ _).symm, derivedLater, ?_⟩
    intro index rest' same
    rw [List.append_assoc, bind_of_ok (agrees index _ (head?_append_of_head? same))]
    exact agreesLater index rest' same
  error := by
    intro tokens error final here failure
    rcases bind_error.mp failure with failed | ⟨value, middle, parsed, failed⟩
    · obtain ⟨before, token, after, same, blamed, ⟨more, value, derived⟩, agrees⟩ :=
        first.error here failed
      obtain ⟨reads, result, derivedLater⟩ := completes derived
      refine ⟨before, token, after, same, blamed, ⟨more ++ reads, result, ?_⟩,
        fun index after' => ?_⟩
      · rwa [← List.append_assoc]
      · obtain ⟨final', failure'⟩ := agrees index after'
        exact ⟨final', bind_of_error failure'⟩
    · obtain ⟨read, rfl, derived, agrees⟩ := first.ok here parsed
      obtain ⟨before, token, after, rfl, blamed, ⟨more, result, derivedLater⟩, agreesLater⟩ :=
        (rest derived).error (passes derived here) failed
      refine ⟨read ++ before, token, after, (List.append_assoc _ _ _).symm, blamed,
        ⟨more, result, ?_⟩, ?_⟩
      · rwa [List.append_assoc]
      · intro index after'
        rw [List.append_assoc, bind_of_ok (agrees index _ head?_append_cons)]
        exact agreesLater index after'

/-- A result that is built from what a parser reads. -/
theorem map {build : α → β} {whole : List τ → β → Prop}
    (first : Diagnoses blames given parser parser' derives)
    (derived : ∀ {read value}, derives read value → whole read (build value)) :
    Diagnoses blames given (parser >>= fun value => Pure.pure (build value))
      (fun index => parser' index >>= fun value => Pure.pure (build value)) whole := by
  have passes {read : List τ} {value : α} {tokens : List τ} (_ : derives read value)
    (_ : given (read ++ tokens)) :
      True := trivial
  have whole {read : List τ} {value : α} (word : derives read value) :
      whole (read ++ []) (build value) :=
    (List.append_nil read).symm ▸ derived word
  exact first.bind passes (fun word => ⟨[], _, whole word⟩) fun word => .pure (whole word)

/-- A parser that takes the current token and goes on with it. -/
theorem token {next : τ → EStateM ε (List τ) α} {next' : ι → τ → EStateM ε (List τ) α}
    {accepts : τ → Prop} {givenLater : τ → List τ → Prop}
    (nonempty : ∀ tokens, given tokens → tokens ≠ [])
    (takes : ∀ token rest, parser (token :: rest) = next token rest)
    (takes' : ∀ index token rest, parser' index (token :: rest) = next' index token rest)
    (passes : ∀ {token tokens}, given (token :: tokens) → accepts token ∧ givenLater token tokens)
    (rest : ∀ {token}, accepts token →
      Diagnoses blames (givenLater token) (next token) (fun index => next' index token)
      fun more value => derives (token :: more) value) :
    Diagnoses blames given parser parser' derives where
  ok := by
    intro tokens value final here success
    cases tokens with
    | nil => exact absurd rfl (nonempty _ here)
    | cons token tokens =>
      obtain ⟨accepted, passed⟩ := passes here
      rw [takes] at success
      obtain ⟨read, rfl, derived, agrees⟩ := (rest accepted).ok passed success
      refine ⟨token :: read, rfl, derived, fun index rest' same => ?_⟩
      rw [List.cons_append, takes']
      exact agrees index rest' same
  error := by
    intro tokens error final here failure
    cases tokens with
    | nil => exact absurd rfl (nonempty _ here)
    | cons token tokens =>
      obtain ⟨accepted, passed⟩ := passes here
      rw [takes] at failure
      obtain ⟨before, blamed, after, rfl, named, viable, agrees⟩ :=
        (rest accepted).error passed failure
      refine ⟨token :: before, blamed, after, rfl, named, viable, fun index after' => ?_⟩
      rw [List.cons_append, takes']
      exact agrees index after'

/-- A decision that looks at the current token only. -/
theorem branch {decides : List τ → Bool} {accepted rejected : EStateM ε (List τ) α}
    {accepted' rejected' : ι → EStateM ε (List τ) α}
    (looks : ∀ {tokens tokens' : List τ}, tokens.head? = tokens'.head? →
      decides tokens = decides tokens')
    (yes : Diagnoses blames (fun tokens => given tokens ∧
      decides tokens = true) accepted accepted' derives)
    (no : Diagnoses blames (fun tokens => given tokens ∧
      decides tokens = false) rejected rejected' derives)
    (runs : ∀ tokens, parser tokens = if decides tokens = true then accepted tokens
      else rejected tokens)
    (runs' : ∀ index tokens, parser' index tokens =
      if decides tokens = true then accepted' index tokens else rejected' index tokens) :
    Diagnoses blames given parser parser' derives where
  ok := by
    intro tokens value rest here success
    rw [runs] at success
    cases decided : decides tokens with
    | true =>
      rw [if_pos decided] at success
      obtain ⟨read, rfl, derived, agrees⟩ := yes.ok ⟨here, decided⟩ success
      refine ⟨read, rfl, derived, fun index rest' same => ?_⟩
      rw [runs', if_pos (decides_of_head? looks same decided)]
      exact agrees index rest' same
    | false =>
      rw [if_neg (Bool.not_eq_true _ ▸ decided)] at success
      obtain ⟨read, rfl, derived, agrees⟩ := no.ok ⟨here, decided⟩ success
      refine ⟨read, rfl, derived, fun index rest' same => ?_⟩
      rw [runs', if_neg (Bool.not_eq_true _ ▸ decides_of_head? looks same decided)]
      exact agrees index rest' same
  error := by
    intro tokens error final here failure
    rw [runs] at failure
    cases decided : decides tokens with
    | true =>
      rw [if_pos decided] at failure
      obtain ⟨before, token, after, rfl, blamed, viable, agrees⟩ :=
        yes.error ⟨here, decided⟩ failure
      refine ⟨before, token, after, rfl, blamed, viable, fun index after' => ?_⟩
      have head : (token :: after').head? = (token :: after).head? := rfl
      rw [runs', if_pos (decides_of_head? looks head decided)]
      exact agrees index after'
    | false =>
      rw [if_neg (Bool.not_eq_true _ ▸ decided)] at failure
      obtain ⟨before, token, after, rfl, blamed, viable, agrees⟩ := no.error ⟨here, decided⟩ failure
      refine ⟨before, token, after, rfl, blamed, viable, fun index after' => ?_⟩
      have head : (token :: after').head? = (token :: after).head? := rfl
      rw [runs', if_neg (Bool.not_eq_true _ ▸ decides_of_head? looks head decided)]
      exact agrees index after'

/-- A loop that reads an item each time. The limit bounds the tokens that are
left, so a loop that is given it as its bound always ends. -/
theorem loop {within : Nat → List τ → Prop} {givenUp : ε} {condition : EStateM ε (List τ) Bool}
    {body : α → EStateM ε (List τ) α} {body' : ι → α → EStateM ε (List τ) α}
    {item : α → List τ → α → Prop} {decides : List τ → Bool} {limit bound : Nat} {bounds : ι → Nat}
    {value : α} (tests : ∀ tokens, condition tokens = .ok (decides tokens) tokens)
    (looks : ∀ {tokens tokens' : List τ}, tokens.head? = tokens'.head? →
      decides tokens = decides tokens')
    (each : ∀ value, Diagnoses blames (fun tokens => within limit tokens ∧ decides tokens = true)
      (body value) (fun index => body' index value) (item value))
    (positive : ∀ tokens, ¬ within 0 tokens)
    (larger : ∀ {bound tokens}, bound ≤ limit → within bound tokens → within limit tokens)
    (passes : ∀ {bound value read next tokens}, item value read next →
      within (bound + 1) (read ++ tokens) →
      within bound tokens)
    (short : bound ≤ limit) (longer : ∀ index, bound ≤ bounds index) :
    Diagnoses blames (within bound) (repeatWhile givenUp condition body bound value)
      (fun index => repeatWhile givenUp condition (body' index) (bounds index) value)
        (Chain item value) := by
  induction bound generalizing bounds value with
  | zero => exact ⟨fun here => absurd here (positive _), fun here => absurd here (positive _)⟩
  | succ bound ih =>
    obtain ⟨bounds, rfl⟩ := exists_succ_of_le longer
    have continues (next : α) :=
      @ih bounds next (Nat.le_of_succ_le short) fun index => Nat.le_of_succ_le_succ (longer index)
    constructor
    · intro tokens result final here success
      rcases repeatWhile_ok.mp success with ⟨decided, rfl⟩ | ⟨_, next, middle, decided, step, rest⟩
      · rw [tests, EStateM.Result.ok.injEq] at decided
        obtain ⟨stops, rfl⟩ := decided
        refine ⟨[], rfl, .nil, fun index rest' same => repeatWhile_stops ?_⟩
        rw [List.nil_append, tests, looks same, stops]
      · rw [tests, EStateM.Result.ok.injEq] at decided
        obtain ⟨goesOn, rfl⟩ := decided
        obtain ⟨read, rfl, first, agrees⟩ := (each value).ok ⟨larger short here, goesOn⟩ step
        obtain ⟨reads, rfl, chain, agreesLater⟩ := (continues next).ok (passes first here) rest
        refine ⟨read ++ reads, (List.append_assoc _ _ _).symm, .cons first chain,
          fun index rest' same => ?_⟩
        have inner : (reads ++ rest').head? = (reads ++ final).head? := head?_append_of_head? same
        have goesOn' := decides_of_head? looks inner goesOn
        rw [List.append_assoc, repeatWhile_goesOn (goesOn' ▸ tests _) (agrees index _ inner)]
        exact agreesLater index rest' same
    · intro tokens error final here failure
      rcases repeatWhile_error failure with impossible | ⟨_, decided, failed⟩
      · rw [tests] at impossible
        cases impossible
      rw [tests, EStateM.Result.ok.injEq] at decided
      obtain ⟨goesOn, rfl⟩ := decided
      rcases failed with failed | ⟨next, middle, step, failed⟩
      · obtain ⟨before, token, after, rfl, blamed, ⟨rest, next, first⟩, agrees⟩ :=
          (each value).error ⟨larger short here, goesOn⟩ failed
        refine ⟨before, token, after, rfl, blamed, ⟨rest, next, ?_⟩, fun index after' => ?_⟩
        · have chain : Chain item value ((before ++ rest) ++ []) next := .cons first .nil
          rwa [List.append_nil] at chain
        · obtain ⟨final', failed'⟩ := agrees index after'
          have head : (token :: after').head? = (token :: after).head? := rfl
          have goesOn' := decides_of_head? looks head goesOn
          exact ⟨final', repeatWhile_breaks (goesOn' ▸ tests _) failed'⟩
      · obtain ⟨read, rfl, first, agrees⟩ := (each value).ok ⟨larger short here, goesOn⟩ step
        obtain ⟨before, token, after, rfl, blamed, ⟨rest, result, chain⟩, agreesLater⟩ :=
          (continues next).error (passes first here) failed
        refine ⟨read ++ before, token, after, (List.append_assoc _ _ _).symm, blamed,
          ⟨rest, result, List.append_assoc _ _ _ ▸ .cons first chain⟩, fun index after' => ?_⟩
        have inner : (before ++ token :: after').head? = (before ++ token :: after).head? :=
          head?_append_cons
        have goesOn' := decides_of_head? looks inner goesOn
        rw [List.append_assoc, repeatWhile_goesOn (goesOn' ▸ tests _) (agrees index _ inner)]
        exact agreesLater index after'

end Diagnoses

end Ocelotl.Library
