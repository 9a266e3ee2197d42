import Solo.Span

/-!
# Libraries

A library keeps the name and the text of each module under its number. Modules are numbered in the
order of their arrival and stay.
-/

namespace Solo

structure Module where
  name : String
  content : String

/-- Modules numbered from 0 in the order of their arrival. -/
structure Library where
  modules : Array Module := #[]

namespace Library

def nextId (l : Library) : ModuleId := l.modules.size

def add (l : Library) (name content : String) : Library := ⟨l.modules.push ⟨name, content⟩⟩

def module? (l : Library) (id : ModuleId) : Option Module := l.modules[id]?

theorem module?_add_nextId (l : Library) (name content : String) :
    (l.add name content).module? l.nextId = some ⟨name, content⟩ := by
  simp [module?, add, nextId]

end Library

end Solo
