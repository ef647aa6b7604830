import Meu1oARM.Httpd.State

/-! # Parameters of a request

`extract_uri_parameters` cuts the parameter string in place, at every `&` and at
the first `=` of every pair, and notes where names and values start.
-/

namespace Meu1oARM

open CString

/-- The loop of `extract_uri_parameters`: the number of parameters and the string cut. -/
def extractUriParametersLoop : Nat → Nat → Option Nat → CgiArgs → Nat × CgiArgs
  | 0, loop, _, args => (loop, args)
  | _ + 1, loop, none, args => (loop, args)
  | fuel + 1, loop, some start, args =>
    let params := args.params.set loop (some start)
    let (pair, buf) :=
      match strchr args.buf start 38 with
      | some amp => (some (amp + 1), args.buf.set amp 0)
      | none =>
        match strchr args.buf start 32 with
        | some space => (none, args.buf.set space 0)
        | none => (none, args.buf)
    match strchr buf start 61 with
    | some equals =>
      extractUriParametersLoop fuel (loop + 1) pair
        { buf := buf.set equals 0, params, paramVals := args.paramVals.set loop (some (equals + 1)) }
    | none =>
      extractUriParametersLoop fuel (loop + 1) pair
        { buf, params, paramVals := args.paramVals.set loop none }

/-- `extract_uri_parameters`; a URI without `?` has no parameter string. -/
def extractUriParameters (params : Option (List UInt8)) (hs : HttpState) : Nat × CgiArgs :=
  match params with
  | none => (0, { buf := [], params := hs.params, paramVals := hs.paramVals })
  | some s =>
    let args : CgiArgs := { buf := s ++ [0], params := hs.params, paramVals := hs.paramVals }
    if s = [] then (0, args) else extractUriParametersLoop maxCgiParameters 0 (some 0) args

end Meu1oARM
