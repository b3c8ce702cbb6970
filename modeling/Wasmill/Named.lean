/-! Things by name. -/
namespace Wasmill

/-- Things of one kind by their names; a name stands for one thing at a time. -/
abbrev Named (α : Type) := List (String × α)

namespace Named

def find? (names : Named α) (name : String) : Option α := List.lookup name names

def unbind (names : Named α) (name : String) : Named α := List.filter (·.1 != name) names

def bind (names : Named α) (name : String) (a : α) : Named α := (name, a) :: names.unbind name

end Named
end Wasmill
