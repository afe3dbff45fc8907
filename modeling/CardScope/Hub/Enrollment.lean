import CardScope.Hub.Ingest
import CardScope.Hub.Nodes

/-! # Enrollment and uploads

The two requests that carry a credential of a node: a code that is exchanged for a token, and
uploads under that token. Checking the credential and writing happen under the lock of the hub.
-/

namespace CardScope.Hub
open Library Model

/-- The exchange of a code for a token; a code that is not a whole token is refused. -/
def enroll (p : Platform) (d : Draw) (st : Store) (code : String) :
    Option (String × String × Store) :=
  if len code = 64 then redeem p d st code else none

def authenticate (p : Platform) (st : Store) (credential : String) : Option NodeRow :=
  if len credential = 64 then nodeOfToken p st credential else none

end CardScope.Hub
