import ClosedLoop.Json.Reader
import ClosedLoop.Profile.Section
import ClosedLoop.Setup.FileError
import ClosedLoop.Setup.Overrides
import ClosedLoop.Setup.Scenario

/-!
# Where the profiles of a run come from

Profiles come from the sections of a file, if one is named, and else from a scenario. Overrides are
applied to all of them, and the result is checked.

* `ProfileSource.load` — the profiles and the warnings of loading them.
* `LoadError` — why there are none, and the wording.
-/

namespace ClosedLoop

/-- Where profiles come from. -/
structure ProfileSource where
  /-- A file with sections. -/
  path : Option String
  scenario : Option Scenario
  /-- What the title of a client section contains. -/
  fragment : String
  overrides : Overrides

/-- Why there are no profiles. -/
inductive LoadError where
  /-- The file cannot be read as text. -/
  | unreadable (path : String) (cause : FileError)
  /-- The text is no object of sections. -/
  | malformed
  /-- The sections describe no usable set of clients. -/
  | unusable (cause : ConfigError)
  /-- The overrides make the set unusable. -/
  | invalid (cause : ConfigError)

/-- A message with the reason behind it. -/
def withCause (context cause : String) : String := s!"{context}\r\n ↪ {cause}"

/-- The wording of a loading error. -/
def LoadError.message : LoadError → String
  | .unreadable path cause => withCause s!"read profiles file {path}" cause.message
  | .malformed => "parse profiles file as json sections"
  | .unusable cause => withCause "load client profiles" cause.message
  | .invalid cause => withCause "validate client profiles" cause.message

namespace ProfileSource

/-- The scenario that is named, or the standard one. -/
def scenarioOrStandard (s : ProfileSource) : Scenario := s.scenario.getD Scenario.standard

/-- The profiles before the overrides. The function `read` gives the text of a file. -/
def loadPlain (s : ProfileSource) (read : String → Except FileError String) :
    Except LoadError (List Profile) × List String :=
  match s.path with
  | none => (.ok s.scenarioOrStandard.profiles, [])
  | some path =>
    match read path with
    | .error cause => (.error (.unreadable path cause), [])
    | .ok text =>
      match Json.parseObject text with
      | .error _ => (.error .malformed, [])
      | .ok members =>
        let (result, warnings) := Section.load s.fragment (Section.ofMembers members)
        (result.mapError .unusable, warnings)

/-- The profiles with the overrides, checked as a set, and the warnings of loading them. -/
def load (s : ProfileSource) (read : String → Except FileError String) :
    Except LoadError (List Profile) × List String :=
  match s.loadPlain read with
  | (.error e, warnings) => (.error e, warnings)
  | (.ok plain, warnings) =>
    let profiles := plain.map s.overrides.apply
    match validateAll profiles with
    | .ok () => (.ok profiles, warnings)
    | .error e => (.error (.invalid e), warnings)

end ProfileSource

end ClosedLoop
