import Bulletin.Name.Uri
import Bulletin.Publication.Id

/-!
# Notes

What a session and its policy report as they work, one constructor for each kind of remark, and the
line of text that each is written as.
-/

namespace Bulletin

inductive Note where
  /-- An own publication was stored. -/
  | published (id : PublicationId) (name : Name)
  /-- An own publication was known already. -/
  | repeated (id : PublicationId) (name : Name)
  /-- A peer has an own publication. -/
  | confirmed (id : PublicationId) (name : Name)
  /-- No peer was seen to have an own publication in time. -/
  | unconfirmed (name : Name)
  /-- A received publication was known already. -/
  | ignoredKnown (id : PublicationId) (name : Name)
  /-- A received publication was refused by the policy. -/
  | ignoredExpired (id : PublicationId) (name : Name)
  /-- A received publication went to a subscriber. -/
  | delivered (id : PublicationId) (name : Name)
  /-- A received publication was stored without a subscriber. -/
  | unclaimed (id : PublicationId) (name : Name)
  /-- A publication reached the end of its lifetime. -/
  | expired (id : PublicationId)
  /-- A publication left the summary. -/
  | unpublished (id : PublicationId)
  /-- A publication left the table. -/
  | forgotten (id : PublicationId)
  /-- A peer was answered with some of the available publications. -/
  | answered (included available bytes : Nat)
  /-- The session was closed. -/
  | closed
  /-- So many cancelled subscriptions were removed. -/
  | purged (count : Nat)
  /-- The freshness of a publication was looked at. -/
  | checked (name : Name) (timestamp now : Timestamp) (expired : Bool)
  deriving DecidableEq, Repr

namespace Note

def publicationLine (word session : String) (id : PublicationId) : String :=
  "DEBUG " ++ word ++ " session=" ++ session ++ " id=" ++ id.short

def namedLine (word session : String) (id : PublicationId) (name : Name) : String :=
  publicationLine word session id ++ " name=" ++ name.uri

def line (session : String) : Note → String
  | published id name => namedLine "d-pub" session id name
  | repeated id name => namedLine "d-dup" session id name
  | confirmed id name => namedLine "d-confirm" session id name
  | unconfirmed name => "DEBUG d-unconfirm session=" ++ session ++ " name=" ++ name.uri
  | ignoredKnown id name => namedLine "c-ignore known" session id name
  | ignoredExpired id name => namedLine "c-ignore expired" session id name
  | delivered id name => namedLine "c-deliver" session id name
  | unclaimed id name => namedLine "c-nosub" session id name
  | expired id => publicationLine "d-expire" session id
  | unpublished id => publicationLine "d-unpublish" session id
  | forgotten id => publicationLine "d-forget" session id
  | answered included available bytes =>
    "DEBUG p-satisfy session=" ++ session ++ " included=" ++ decimal included ++
      " available=" ++ decimal available ++ " bytes=" ++ decimal bytes
  | closed => "DEBUG closed session=" ++ session
  | purged count => "WARN dropped closed subscriptions dropped=" ++ decimal count
  | checked name timestamp now outcome =>
    "TRACE expiry check name=" ++ name.uri ++ " timestamp=" ++ decimal timestamp.toNat ++
      " now=" ++ decimal now.toNat ++ " expired=" ++ (if outcome then "true" else "false")

end Note

end Bulletin
