import Ocelotl.Library.Parsing

/-! Parsers that consume tokens, and recursive parsers that call themselves only
after that. -/

namespace Ocelotl.Library

variable {ε τ α β : Type} {parser parser' : EStateM ε (List τ) α} {limit : Nat}

/-- A success leaves no more tokens. -/
def Keeps (parser : EStateM ε (List τ) α) : Prop :=
  ∀ tokens value rest, parser tokens = .ok value rest → rest.length ≤ tokens.length

/-- A success takes a token at least. -/
def Consumes (parser : EStateM ε (List τ) α) : Prop :=
  ∀ tokens value rest, parser tokens = .ok value rest → rest.length < tokens.length

/-- What the parser does depends on its recursive calls only where fewer tokens
are left. -/
def Guarded (parser : EStateM ε (List τ) α → EStateM ε (List τ) β) : Prop :=
  ∀ tokens call call', Consumes call →
    (∀ fewer, fewer.length < tokens.length → call fewer = call' fewer) →
    parser call tokens = parser call' tokens

/-- The parsers do the same on so many tokens, and leave no more. -/
structure Alike (limit : Nat) (parser parser' : EStateM ε (List τ) α) : Prop where
  agrees : ∀ tokens, tokens.length ≤ limit → parser tokens = parser' tokens
  keeps : Keeps parser

theorem Consumes.keeps (consumes : Consumes parser) : Keeps parser :=
  fun tokens value rest success => Nat.le_of_lt (consumes tokens value rest success)

/-- A language without the empty word. -/
theorem SoundFor.consumes {derives : List τ → α → Prop} (sound : SoundFor parser derives)
    (nonempty : ∀ read value, derives read value → 0 < read.length) : Consumes parser := by
  intro tokens value rest success
  obtain ⟨read, rfl, derived⟩ := sound tokens value rest success
  have positive := nonempty read value derived
  rw [List.length_append]
  omega

theorem Keeps.bind {next : α → EStateM ε (List τ) β} (first : Keeps parser)
    (rest : ∀ value, Keeps (next value)) :
    Keeps (parser >>= next) := by
  intro tokens result final success
  obtain ⟨value, middle, parsed, continued⟩ := bind_ok.mp success
  exact Nat.le_trans (rest value middle result final continued) (first tokens value middle parsed)

theorem Keeps.then_consumes {next : α → EStateM ε (List τ) β} (first : Keeps parser)
    (rest : ∀ value, Consumes (next value)) : Consumes (parser >>= next) := by
  intro tokens result final success
  obtain ⟨value, middle, parsed, continued⟩ := bind_ok.mp success
  exact Nat.lt_of_lt_of_le (rest value middle result final continued)
    (first tokens value middle parsed)

theorem Consumes.bind {next : α → EStateM ε (List τ) β} (first : Consumes parser)
    (rest : ∀ value, Keeps (next value)) :
    Consumes (parser >>= next) := by
  intro tokens result final success
  obtain ⟨value, middle, parsed, continued⟩ := bind_ok.mp success
  exact Nat.lt_of_le_of_lt (rest value middle result final continued)
    (first tokens value middle parsed)

theorem keeps_pure (value : α) : Keeps (pure value : EStateM ε (List τ) α) := by
  intro tokens result rest success
  cases success
  exact Nat.le_refl _

theorem keeps_throw (error : ε) : Keeps (throw error : EStateM ε (List τ) α) := by
  intro tokens result rest success
  cases success

namespace Alike

theorem refl (keeps : Keeps parser) : Alike limit parser parser := ⟨fun _ _ => rfl, keeps⟩

theorem bind {next next' : α → EStateM ε (List τ) β} (first : Alike limit parser parser')
    (rest : ∀ value, Alike limit (next value) (next' value)) :
    Alike limit (parser >>= next) (parser' >>= next') where
  keeps := first.keeps.bind fun value => (rest value).keeps
  agrees := by
    intro tokens short
    have same := first.agrees tokens short
    cases parsed : parser tokens with
    | ok value middle =>
      rw [bind_of_ok parsed, bind_of_ok (same ▸ parsed)]
      exact (rest value).agrees middle (Nat.le_trans (first.keeps tokens value middle parsed) short)
    | error error final => rw [bind_of_error parsed, bind_of_error (same ▸ parsed)]

/-- After a token was consumed, the parsers are given fewer. -/
theorem bind_consumes {next next' : α → EStateM ε (List τ) β} (first : Consumes parser)
    (rest : ∀ value, Alike limit (next value) (next' value)) :
    Alike (limit + 1) (parser >>= next) (parser >>= next') where
  keeps := first.keeps.bind fun value => (rest value).keeps
  agrees := by
    intro tokens short
    cases parsed : parser tokens with
    | ok value middle =>
      have fewer := first tokens value middle parsed
      rw [bind_of_ok parsed, bind_of_ok parsed]
      exact (rest value).agrees middle (by omega)
    | error error final => rw [bind_of_error parsed, bind_of_error parsed]

theorem loop {givenUp : ε} {condition : EStateM ε (List τ) Bool}
    {body body' : α → EStateM ε (List τ) α} (tests : Keeps condition)
    (each : ∀ value, Alike limit (body value) (body' value)) (bound : Nat) (value : α) :
    Alike limit (repeatWhile givenUp condition body bound value)
      (repeatWhile givenUp condition body' bound value) := by
  induction bound generalizing value with
  | zero => exact refl (keeps_throw givenUp)
  | succ bound ih =>
    refine (refl tests).bind fun goesOn => ?_
    cases goesOn with
    | false => exact refl (keeps_pure value)
    | true => exact (each value).bind ih

end Alike

theorem Keeps.loop {givenUp : ε} {condition : EStateM ε (List τ) Bool}
    {body : α → EStateM ε (List τ) α} (tests : Keeps condition) (each : ∀ value, Keeps (body value))
    (bound : Nat) (value : α) :
    Keeps (repeatWhile givenUp condition body bound value) := by
  have alike : Alike 0 (repeatWhile givenUp condition body bound value)
      (repeatWhile givenUp condition body bound value) :=
    .loop tests (fun value => .refl (each value)) bound value
  exact alike.keeps

/-- A parser whose calls come after a token. -/
theorem guarded_of_alike {parser : EStateM ε (List τ) α → EStateM ε (List τ) β}
    (stops : ∀ call call', parser call [] = parser call' [])
    (agrees : ∀ {token tokens call call'}, Alike tokens.length call call' →
      parser call (token :: tokens) = parser call' (token :: tokens)) : Guarded parser := by
  intro tokens call call' consumes same
  cases tokens with
  | nil => exact stops call call'
  | cons token tokens =>
    exact agrees ⟨fun fewer short => same fewer (Nat.lt_succ_of_le short), consumes.keeps⟩

end Ocelotl.Library
