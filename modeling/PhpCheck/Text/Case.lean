/-!
# Names without regard to case

Class, function and method names are compared without regard to ASCII case, and a leading
namespace separator is only a way of writing a name. `canonical` gives the form under which
classes and functions are filed.
-/

namespace PhpCheck.Text

/-- The text with its ASCII capitals made small; every other character stays as it is. -/
def lowered (s : String) : String :=
  String.ofList (s.toList.map Char.toLower)

/-- Equality up to ASCII case. -/
def sameIgnoringCase (a b : String) : Bool :=
  lowered a == lowered b

/-- The name without the namespace separators in front of it. -/
def unrooted (name : String) : String :=
  String.ofList (name.toList.dropWhile (· == '\\'))

/-- The form of a name under which a class or a function is filed. -/
def canonical (name : String) : String :=
  lowered (unrooted name)

/-- The part of a namespaced name after its last separator, if it has one. -/
def shortName? (name : String) : Option String :=
  let cs := name.toList.reverse
  if cs.contains '\\' then some (String.ofList (cs.takeWhile (· != '\\')).reverse) else none

/-- What stands in front of the first `::`. -/
def untilColons : List Char → List Char
  | ':' :: ':' :: _ => []
  | c :: rest => c :: untilColons rest
  | [] => []

/-- The part of a member name after its last `::`, or all of it. -/
def memberPart (name : String) : String :=
  String.ofList (untilColons name.toList.reverse).reverse

end PhpCheck.Text
