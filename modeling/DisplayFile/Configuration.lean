import DisplayFile.Json

/-!
# Configuration

The editor may ask for warnings of duplicate aliases. Its settings are accepted as they are or under
the name `dspf`; settings that do not say yes or no change nothing.
-/

namespace DisplayFile

structure Configuration where
  duplicateAliases : Bool
deriving DecidableEq

namespace Configuration

/-- Without settings there are no warnings. -/
def initial : Configuration := ⟨false⟩

def setting? (settings : Json) : Option Bool :=
  let own := (settings.field? "dspf").getD settings
  ((own.field? "diagnostics").bind (Json.field? "duplicateAliases")).bind Json.bool?

def apply (c : Configuration) (settings : Json) : Configuration :=
  match setting? settings with
  | some wanted => ⟨wanted⟩
  | none => c

end Configuration

end DisplayFile
