import Dialogue.Value

/-! Effects on the context. Each one sees what those before it left. -/
namespace Dialogue

inductive EffectOp where
  | set
  | add
  deriving DecidableEq, Repr, Inhabited

structure Effect where
  key : String
  op : EffectOp
  value : Json
  deriving DecidableEq, Repr, Inhabited

namespace Effect

def setting (key : String) (value : Json) : Effect := ⟨key, .set, value⟩

def adding (key : String) (value : Json) : Effect := ⟨key, .add, value⟩

def updated (e : Effect) (current : Option Json) : Json :=
  match e.op with
  | .set => e.value
  | .add => Value.ofNumber (Value.asNumber current + Value.asNumber (some e.value))

def apply (e : Effect) (context : Context) : Context :=
  context.insert e.key (e.updated (context.get? e.key))

def applyAll (effects : List Effect) (context : Context) : Context :=
  effects.foldl (fun c e => e.apply c) context

def trace : List Effect → Context → List (Effect × Json)
  | [], _ => []
  | e :: rest, context => (e, e.updated (context.get? e.key)) :: trace rest (e.apply context)

end Effect
end Dialogue
