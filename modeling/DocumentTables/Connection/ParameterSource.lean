import DocumentTables.Config.ConnectionParameters

/-!
# Sources of connection parameters

Parameters may change while a backend is being restored, so they are asked for again and again.
-/

namespace DocumentTables

/-- Where connection parameters come from. -/
inductive ParameterSource where
  /-- The same parameters each time. -/
  | fixed (params : ConnectionParameters)
  /-- Answers in order, of which the last is given for ever. -/
  | scripted (answer : Except ConfigError ConnectionParameters)
      (later : List (Except ConfigError ConnectionParameters))
  /-- The variables of an application. -/
  | environment (application : String) (env : Environment)

namespace ParameterSource

/-- Ask for the parameters. -/
def resolve : ParameterSource → Except ConfigError ConnectionParameters × ParameterSource
  | .fixed params => (.ok params, .fixed params)
  | .scripted answer [] => (answer, .scripted answer [])
  | .scripted answer (next :: later) => (answer, .scripted next later)
  | .environment application env =>
      (ConnectionParameters.ofEnvironment application env, .environment application env)

/-- The same source with other variables. -/
def withEnvironment (env : Environment) : ParameterSource → ParameterSource
  | .environment application _ => .environment application env
  | source => source

end ParameterSource

/-- A source and how often it was asked. -/
structure CountedSource where
  source : ParameterSource
  calls : Nat

namespace CountedSource

/-- Ask for the parameters, and count that. -/
def resolve {σ : Type} (world : CountedSource × σ) :
    Except Error ConnectionParameters × (CountedSource × σ) :=
  let (answer, source) := world.1.source.resolve
  (answer.mapError .config, (⟨source, world.1.calls + 1⟩, world.2))

end CountedSource
end DocumentTables
