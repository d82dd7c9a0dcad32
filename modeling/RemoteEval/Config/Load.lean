import RemoteEval.Error

/-!
Settings from a file.
-/
namespace RemoteEval.Config

def load (file : String) (contents : Except Fault (List UInt8)) : Except Error Config :=
  match contents with
  | .error fault => .error (.io fault)
  | .ok bytes =>
    match read bytes with
    | .ok config => .ok config
    | .error why => .error (.badConfig file why)

end RemoteEval.Config
