import PolicyDecision.Engine.Session
import PolicyDecision.Main
import PolicyDecision.Proofs.DenyOverrides
import PolicyDecision.Proofs.Rounding
import PolicyDecision.Proofs.NumberText
import PolicyDecision.Proofs.Printing
import PolicyDecision.Proofs.Reading
import PolicyDecision.Proofs.Current
import PolicyDecision.Proofs.Operators
import PolicyDecision.Proofs.Provenance
import PolicyDecision.Proofs.Remembered
import PolicyDecision.Proofs.Run
import PolicyDecision.Proofs.Transparency
import PolicyDecision.Proofs.Registration
import PolicyDecision.Proofs.Evaluating
import PolicyDecision.Proofs.Protocol
import PolicyDecision.Proofs.Fair
import PolicyDecision.Proofs.Lockstep
import PolicyDecision.Proofs.Ancestry
import PolicyDecision.Proofs.AtHand
import PolicyDecision.Proofs.Rereading
import PolicyDecision.Proofs.Normal
import PolicyDecision.Proofs.Records
import PolicyDecision.Proofs.Equality
import PolicyDecision.Proofs.Reload
import PolicyDecision.Proofs.FirstApplicable
import PolicyDecision.Proofs.Owner
import PolicyDecision.Proofs.Irrelevance
import PolicyDecision.Proofs.History
import PolicyDecision.Proofs.Edge
import PolicyDecision.Proofs.Contents
import PolicyDecision.Proofs.Wording
import PolicyDecision.Proofs.Conjunction
import PolicyDecision.Proofs.Turns
import PolicyDecision.Proofs.Inheritance
import PolicyDecision.Proofs.Shadowing
import PolicyDecision.Proofs.Reserved
import PolicyDecision.Proofs.Canonical
import PolicyDecision.Proofs.Recency
import PolicyDecision.Proofs.Sameness
import PolicyDecision.Proofs.Lossless
import PolicyDecision.Proofs.Scope
import PolicyDecision.Proofs.Congruence
import PolicyDecision.Proofs.Distinct
import PolicyDecision.Proofs.Told
import PolicyDecision.Proofs.Flattened
import PolicyDecision.Proofs.Reached
import PolicyDecision.Proofs.Requester
import PolicyDecision.Proofs.Spelling
import PolicyDecision.Proofs.Status
