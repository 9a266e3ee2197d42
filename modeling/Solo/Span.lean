/-!
# Spans

A span is a stretch of bytes of one module's text. A node that is made of others covers their
spans.
-/

namespace Solo

abbrev ModuleId := Nat

def ModuleId.unknown : ModuleId := 4294967294

/-- The bytes from `lo` up to `hi` of a module's text. -/
structure Span where
  lo : Nat
  hi : Nat
  module : ModuleId
  lo_le_hi : lo ≤ hi := by omega
deriving DecidableEq

namespace Span

/-- The empty span at a byte of a module. -/
def point (pos : Nat) (module : ModuleId) : Span := ⟨pos, pos, module, Nat.le_refl pos⟩

instance : Inhabited Span := ⟨point 0 ModuleId.unknown⟩

/-- The least span over two spans, in the module of the first. -/
def cover (s t : Span) : Span where
  lo := min s.lo t.lo
  hi := max s.hi t.hi
  module := s.module
  lo_le_hi := Nat.le_trans (Nat.min_le_left ..) (Nat.le_trans s.lo_le_hi (Nat.le_max_left ..))

/-- The least span over a list of spans that starts with `s`. -/
def coverAll (s : Span) (rest : List Span) : Span := rest.foldl cover s

def within (s t : Span) : Bool := t.lo ≤ s.lo && s.hi ≤ t.hi

def text (s : Span) : String := s!"{s.module}:{s.lo}:{s.hi}"

end Span

end Solo
