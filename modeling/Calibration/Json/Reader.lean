import Calibration.Json.Token

/-! # Reading JSON

The tokens of a text drive a stack of unfinished arrays and objects. Each token is taken once, so
depth needs no bound.
-/
namespace Calibration.Json

/-- An unfinished array, or an object with the key whose value is being read; the finished parts
stand last first. -/
inductive Frame where
  | arr (done : List Json)
  | obj (done : List (Option String × Json)) (key : Option String)

inductive Awaited where
  | value
  | itemOrClose
  | keyOrClose
  | key (done : List (Option String × Json))
  | colon (done : List (Option String × Json)) (key : Option String)
  /-- A value is finished; a separator, a bracket or the end follows. -/
  | after (j : Json)

structure Reader where
  stack : List Frame
  awaited : Awaited

namespace Reader

def beginValue (stack : List Frame) : Token → Option Reader
  | .scalar j => some ⟨stack, .after j⟩
  | .str s => some ⟨stack, .after (.str s)⟩
  | .openArr => some ⟨.arr [] :: stack, .itemOrClose⟩
  | .openObj => some ⟨stack, .keyOrClose⟩
  | _ => none

def step (r : Reader) (t : Token) : Option Reader :=
  match r.awaited, t with
  | .value, t => beginValue r.stack t
  | .itemOrClose, .closeArr =>
    match r.stack with
    | .arr done :: stack => some ⟨stack, .after (.arr done.reverse)⟩
    | _ => none
  | .itemOrClose, t => beginValue r.stack t
  | .keyOrClose, .closeObj => some ⟨r.stack, .after (.obj [])⟩
  | .keyOrClose, .str key => some ⟨r.stack, .colon [] key⟩
  | .key done, .str key => some ⟨r.stack, .colon done key⟩
  | .colon done key, .colon => some ⟨.obj done key :: r.stack, .value⟩
  | .after j, t =>
    match r.stack, t with
    | .arr done :: stack, .comma => some ⟨.arr (j :: done) :: stack, .value⟩
    | .arr done :: stack, .closeArr => some ⟨stack, .after (.arr (j :: done).reverse)⟩
    | .obj done key :: stack, .comma => some ⟨stack, .key ((key, j) :: done)⟩
    | .obj done key :: stack, .closeObj => some ⟨stack, .after (.obj ((key, j) :: done).reverse)⟩
    | _, _ => none
  | _, _ => none

def run (r : Reader) : List Token → Option Reader
  | [] => some r
  | t :: rest => (r.step t).bind fun next => next.run rest

def result? (r : Reader) : Option Json :=
  match r.stack, r.awaited with
  | [], .after j => some j
  | _, _ => none

end Reader

def read? (text : String) : Option Json := do
  let tokens ← Token.list? text.toList
  let r ← Reader.run ⟨[], .value⟩ tokens
  r.result?

end Calibration.Json
