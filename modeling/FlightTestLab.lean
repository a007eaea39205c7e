import FlightTestLab.Cpp.Acceptance
import FlightTestLab.Cpp.Replies
import FlightTestLab.Cpp.RoundTrip
import FlightTestLab.Cpp.Retention
import FlightTestLab.Cpp.Threads
import FlightTestLab.Cpp.Faults
import FlightTestLab.Learning.Resume
import FlightTestLab.Learning.Robust
import FlightTestLab.Learning.Restart
import FlightTestLab.Learning.Orphans
import FlightTestLab.Learning.Discard
import FlightTestLab.Learning.Drill
import FlightTestLab.Learning.Weights
import FlightTestLab.Learning.Gates
import FlightTestLab.Learning.Malformed
import FlightTestLab.Learning.Responses
import FlightTestLab.Learning.Evidence
import FlightTestLab.Learning.Links
import FlightTestLab.Learning.Instances
import FlightTestLab.Checks.Marks
import FlightTestLab.Checks.Locks
import FlightTestLab.Checks.Exclusive
import FlightTestLab.Checks.Junit
import FlightTestLab.Checks.Artifact
import FlightTestLab.Checks.Conversation
import FlightTestLab.Simulator.Termination
import FlightTestLab.Simulator.Injection
import FlightTestLab.Testlab.Client
import FlightTestLab.Testlab.Polling
import FlightTestLab.Parity.Answers
import FlightTestLab.Parity.Framing
