import BlindSchnorr.Blind.Requester
import BlindSchnorr.Blind.Session

/-!
# The signing service

One curve and one valid configuration behind every operation, plain and blind. The service
decides by its configuration whether a blind signature is checked.
-/
namespace BlindSchnorr

structure Service (C : CurveGroup) where
  signer : Signer C

namespace Service

variable {C : CurveGroup}

/-- A service with a configuration, if that is valid. -/
def withConfig (C : CurveGroup) (config : Config) : Except Error (Service C) :=
  (Signer.withConfig C config).map Service.mk

def publicKey (V : Service C) (key : Bytes) (compressed : Bool) : Except Error PointCode :=
  V.signer.publicKey key compressed

def sign (V : Service C) (key message : Bytes) : Except Error Signature := V.signer.sign key message

def verify (V : Service C) (key signature message : Bytes) : Except Error Bool :=
  V.signer.verify key signature message

def openSession (_V : Service C) : Draw (Except Error Session) := Session.start C

def request (V : Service C) (publicKey commitment message : Bytes) :
    Draw (Except Error (Requester C)) :=
  Requester.start V.signer publicKey commitment message

/-- Unblinds a response, checked if the configuration says so. -/
def finalize (V : Service C) (q : Requester C) (response : Bytes) : Except Error Signature :=
  q.finalize response V.signer.config.blindSelfCheck

end Service

end BlindSchnorr
