import FlowEngine.Expr.Helper.Logic
import FlowEngine.Expr.Helper.Math
import FlowEngine.Expr.Helper.Text
import FlowEngine.Expr.Helper.Collection
import FlowEngine.Expr.Helper.Encoding

/-!
# The table of helpers

`Helper.find?` knows every helper by its name. Methods are helpers that take the value before the
point as their first argument; a few have other names as methods.
-/
namespace FlowEngine.Helper

def find? (draw : Nat) (name : String) : Option Helper :=
  (logic? name).or ((math? draw name).or ((text? name).or ((collection? name).or (encoding? name))))

def ofMethod : String → String
  | "toUpperCase" => "upper"
  | "toLocaleUpperCase" => "upper"
  | "toLowerCase" => "lower"
  | "toLocaleLowerCase" => "lower"
  | "replace" => "replaceFirst"
  | "replaceAll" => "replace"
  | "toJsonString" => "jsonStringify"
  | "parseJson" => "jsonParse"
  | "substr" => "substring"
  | method => method

end FlowEngine.Helper
