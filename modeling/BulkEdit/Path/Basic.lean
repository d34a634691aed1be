import BulkEdit.Text.Basic

/-!
# Paths

A path is kept as it was spelled and compared by its components: repeated slashes, a trailing slash
and a dot between two components make no difference, while a leading dot does and two dots are a
component like any other.
-/

namespace BulkEdit

inductive Component where
  | root
  | here
  | up
  | name (text : Text)
  deriving DecidableEq, Repr

/-- The place of a component in the order of paths: the root, a leading dot, two dots, and then the
names by their characters. -/
def Component.key : Component → List Nat
  | .root => [0]
  | .here => [1]
  | .up => [2]
  | .name text => 3 :: text.map Char.toNat

structure Path where
  spelling : Text
  deriving DecidableEq, Repr

namespace Path

def isAbsolute (p : Path) : Bool := ['/'].isPrefixOf p.spelling

/-- The component that a piece between slashes stands for. Nothing and a dot stand for none. -/
def componentOf? (piece : Text) : Option Component :=
  if piece = [] ∨ piece = ['.'] then none
  else if piece = ['.', '.'] then some .up
  else some (.name piece)

def leadingComponents (p : Path) : List Component :=
  if p.isAbsolute then [.root]
  else if (p.spelling.pieces '/').head? = some ['.'] then [.here]
  else []

def components (p : Path) : List Component :=
  p.leadingComponents ++ (p.spelling.pieces '/').filterMap componentOf?

/-- Two spellings of one path. -/
def Same (p q : Path) : Prop := p.components = q.components

instance (p q : Path) : Decidable (p.Same q) := inferInstanceAs (Decidable (_ = _))

/-- The key of the order of paths, which is by components. -/
def key (p : Path) : List (List Nat) := p.components.map Component.key

/-- Whether `p` comes before `q`. -/
def before (p q : Path) : Bool := compare p.key q.key == .lt

/-- The path `relative` as seen from `base`. An absolute path stays what it is. -/
def join (base relative : Path) : Path :=
  if relative.isAbsolute then relative
  else if base.spelling = [] ∨ base.spelling.getLast? = some '/' then
    ⟨base.spelling ++ relative.spelling⟩
  else ⟨base.spelling ++ '/' :: relative.spelling⟩

/-- The listed paths less each that is the same as the one kept before it, which is `last`. -/
def mergeAfter (last : Path) : List Path → List Path
  | [] => []
  | p :: rest => if last.Same p then mergeAfter last rest else p :: mergeAfter p rest

/-- The listed paths with each run of the same path merged into its first spelling. -/
def mergeAdjacent : List Path → List Path
  | [] => []
  | p :: rest => p :: mergeAfter p rest

theorem same_refl (p : Path) : p.Same p := rfl

theorem Same.symm {p q : Path} (h : p.Same q) : q.Same p := Eq.symm h

theorem Same.trans {p q r : Path} (h : p.Same q) (k : q.Same r) : p.Same r := Eq.trans h k

end Path

end BulkEdit
