import Fasten.Shipping
import Fasten.Ingest.Unsealed
import Fasten.Ingest.Redelivery
import Fasten.Converge
import Fasten.GoIngest.Agree
import Fasten.Drainer.Flush
import Fasten.Codes.Deadlock
import Fasten.Redaction.Recorded
import Fasten.Reader.Scope
import Fasten.GoEngine.Emit
import Fasten.Drainer.Waiting
import Fasten.Drainer.Events
import Fasten.GoRow.Received
import Fasten.Codes.Yaml
import Fasten.Ingest.Prefix
import Fasten.Purge.Spec
import Fasten.SharedTable.Runs
import Fasten.Search
import Fasten.Redactor.Js
import Fasten.Redactor.Python
import Fasten.CheckpointFile.Runs
import Fasten.Checkpoints.Since
import Fasten.GoRetention
import Fasten.CppDrainer
