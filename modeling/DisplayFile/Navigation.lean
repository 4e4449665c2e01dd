import DisplayFile.Document

/-!
# Navigation

From a usage one goes to the declaration it refers to, and from a declaration to the usages that
refer to it. A usage refers to the field of its name or, if no field of the format has that name, to
the last field whose alias is that name. Nothing is found across formats.
-/

namespace DisplayFile

/-- The declaration that starts last; of several that start together, the last. -/
def latest? : List Declaration → Option Declaration
  | [] => none
  | d :: rest =>
    match latest? rest with
    | none => some d
    | some e => if d.nameSpan.start ≤ e.nameSpan.start then some e else some d

inductive Occurrence where
  | usage (u : Usage)
  | declaration (d : Declaration)
deriving DecidableEq

inductive Resolution where
  | declaration (span : Span)
  | usages (spans : List Span)
deriving DecidableEq

def Resolution.spans : Resolution → List Span
  | declaration span => [span]
  | usages spans => spans

namespace Format

def usageAt? (f : Format) (p : Position) : Option Usage := f.allUsages.find? (·.contains p)

def declarationAt? (f : Format) (p : Position) : Option Declaration :=
  f.declarations.values.find? (·.contains p)

/-- The usage at a position or, if there is none, the declaration. -/
def occurrenceAt? (f : Format) (p : Position) : Option Occurrence :=
  match f.usageAt? p with
  | some u => some (.usage u)
  | none => (f.declarationAt? p).map .declaration

def declarationFor? (f : Format) (name : Name) : Option Declaration :=
  match f.declaration? name with
  | some d => some d
  | none => latest? (f.declarations.values.filter fun d => d.aliasName = some name)

def refersTo (f : Format) (name : Name) (d : Declaration) : Bool :=
  (f.declarationFor? name).any fun owner => owner.nameSpan = d.nameSpan

/-- The usages that refer to a declaration, by its name or by its alias, in order of position. -/
def usagesFor (f : Format) (d : Declaration) : List Usage :=
  match d.aliasName with
  | none => f.usagesOf d.name
  | some other =>
    if other = d.name then f.usagesOf d.name
    else sortByStart
      (f.usagesOf d.name ++ (f.usagesOf other).filter fun u => f.refersTo u.name d)

def resolve? (f : Format) : Occurrence → Option Resolution
  | .usage u => (f.declarationFor? u.name).map fun d => .declaration d.nameSpan
  | .declaration d =>
    match f.usagesFor d with
    | [] => none
    | usages => some (.usages (usages.map Usage.target))

/-- The usages of a declaration, after the declaration itself if that is asked for. -/
def referencesTo (f : Format) (d : Declaration) (withDeclaration : Bool) : List Span :=
  (if withDeclaration then [d.nameSpan] else []) ++ (f.usagesFor d).map Usage.target

/-- All that refers to the same declaration as an occurrence. A usage that refers to none stands
together with the other usages of its name. -/
def references (f : Format) (withDeclaration : Bool) : Occurrence → List Span
  | .declaration d => f.referencesTo d withDeclaration
  | .usage u =>
    match f.declarationFor? u.name with
    | some d => f.referencesTo d withDeclaration
    | none => (f.usagesOf u.name).map Usage.target

end Format

namespace Document

def resolve? (d : Document) (p : Position) : Option Resolution :=
  (d.formatAt? p.line).bind fun f => (f.occurrenceAt? p).bind f.resolve?

def targets (d : Document) (p : Position) : List Span :=
  ((d.resolve? p).map Resolution.spans).getD []

def references (d : Document) (p : Position) (withDeclaration : Bool) : List Span :=
  ((d.formatAt? p.line).bind fun f =>
    (f.occurrenceAt? p).map (f.references withDeclaration)).getD []

end Document

end DisplayFile
