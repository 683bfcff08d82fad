import GDWorkbench.Text.Quoted

/-!
Configurations: named values in the order they were given.
-/

namespace GDWorkbench

namespace Configuration

inductive Value where
  | null
  | bool (value : Bool)
  | number (value : Int)
  | text (value : Text)
  | list (items : List Value)
  | set (names : List Text)
  | map (entries : List (Text × Value))
  deriving Repr, Inhabited

namespace Value

mutual

def listing : Value → Text
  | .null => "None".toList
  | .bool true => "True".toList
  | .bool false => "False".toList
  | .number n => Text.ofInt n
  | .text t => Text.quoted t
  | .list items => '[' :: Text.join ", ".toList (listings items) ++ [']']
  | .set [] => "set()".toList
  | .set names => '\x7b' :: Text.join ", ".toList (names.map Text.quoted) ++ ['\x7d']
  | .map entries => '\x7b' :: Text.join ", ".toList (entryListings entries) ++ ['\x7d']

def listings : List Value → List Text
  | [] => []
  | v :: vs => listing v :: listings vs

def entryListings : List (Text × Value) → List Text
  | [] => []
  | (name, v) :: rest => (Text.quoted name ++ ": ".toList ++ listing v) :: entryListings rest

end

def shown : Value → Text
  | .text t => t
  | v => v.listing

def isTrue : Value → Bool
  | .null => false
  | .bool b => b
  | .number n => n != 0
  | .text t => !t.isEmpty
  | .list items => !items.isEmpty
  | .set names => !names.isEmpty
  | .map entries => !entries.isEmpty

def number? : Value → Option Int
  | .number n => some n
  | .bool b => some (if b then 1 else 0)
  | _ => none

def text? : Value → Option Text
  | .text t => some t
  | _ => none

def isText (name : Text) : Value → Bool
  | .text t => t = name
  | _ => false

def isCompound : Value → Bool
  | .list _ | .set _ | .map _ => true
  | _ => false

def names? : Value → Option (List Text)
  | .list items => some (items.filterMap text?)
  | .set names => some names
  | .map entries => some (entries.map (·.1))
  | _ => none

end Value

end Configuration

abbrev Configuration := List (Text × Configuration.Value)

namespace Configuration

def get? (c : Configuration) (key : Text) : Option Value :=
  (c.find? fun entry => entry.1 = key).map (·.2)

def get (c : Configuration) (key : String) : Value :=
  (c.get? key.toList).getD .null

def missing (c defaults : Configuration) : Configuration :=
  defaults.filter fun entry => (c.get? entry.1).isNone

def withDefaults (c defaults : Configuration) : Configuration :=
  c ++ c.missing defaults

def listing (entry : Text × Value) : Text :=
  '(' :: Text.quoted entry.1 ++ ", ".toList ++ entry.2.listing ++ [')']

end Configuration

end GDWorkbench
