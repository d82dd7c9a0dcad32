import RemoteEval.Config.Reader
import RemoteEval.Fault
import RemoteEval.Namespace.Spec
import RemoteEval.Response.Basic

/-!
What can go wrong with sessions, requests and responses, by cause, and the wording of each.
-/
namespace RemoteEval

inductive Error where
  | malformedNamespace (why : Namespace.Malformed)
  | staging (fault : Fault)
  | duplicateId (id : RequestId)
  | malformedRequest (line : String)
  | badResponse (reason : Response.Reason)
  | promptTimeout (bound : Duration)
  | outputEnded
  | connectionClosed
  | badConfig (file : String) (why : Config.Malformed)
  | io (fault : Fault)

def Error.message : Error → String
  | .malformedNamespace why => "Malformed namespace spec - " ++ why.message
  | .staging fault => "Failed to stage payload - " ++ fault.message
  | .duplicateId id => "Request id is already in flight - " ++ id
  | .malformedRequest line => "Failed to decode response - Malformed request frame - " ++ line
  | .badResponse reason => "Failed to decode response - " ++ reason.message
  | .promptTimeout bound => "Interpreter prompt did not reappear within " ++ bound.text
  | .outputEnded => "Interpreter output closed before prompt reappeared"
  | .connectionClosed => "Connection closed"
  | .badConfig file why => "Invalid config - " ++ file ++ " - " ++ why.message
  | .io fault => fault.message

end RemoteEval
